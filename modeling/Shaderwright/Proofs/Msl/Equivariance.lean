import Mathlib.Tactic.Common
import Shaderwright.Proofs.Emit.Equivariance
import Shaderwright.Proofs.Emit.Verbatim
import Shaderwright.Proofs.Msl.DirectText
import Shaderwright.Proofs.Msl.Interchange

/-!
Renaming a variable of an MSL shader. If the name of the variable is no word that MSL brings along
and none that is made with the name of the shader, then it is replaced in the text of the
declarations, and nowhere else, when the variable gets another name.
-/

namespace Shaderwright.Msl

open Emit.Mirrors

/-- The texts that are made with the name of a shader, and the accumulator that an entry point has
by default. -/
def shaderTexts (shader : String) : List String :=
  [uniformsName shader, prefixed shader entryPointName, shader ++ "_sample(_sampler, ",
    defaultAccumulator]

/-- What is asked of a variable: neither the old nor the new name of `v` gets a field. -/
def VarClear (ρ : Rewording) (v u : Variable) : Prop :=
  v.ClearOf u ∧ (u.qualifier = .param → u ≠ v ∧ u.name ≠ (ρ.newName v).name)

/-- A renaming of one variable that leaves alone what belongs to MSL and to the shader. -/
structure ClearFor (ρ : Rewording) (shader : String) (v : Variable) : Prop where
  only : ρ.old = [v.name]
  own : ∀ t ∈ languageTexts ++ shaderTexts shader, ρ.Fixes t
  old : v.name ∉ inputNames
  new : (ρ.newName v).name ∉ inputNames

/-- A state in which the old and the new name of `v` stand for themselves. -/
structure TableClear (ρ : Rewording) (v : Variable) (own : State) : Prop where
  values : ∀ e ∈ own.variableNames.entries, ρ.Fixes e.2
  old : own.variableNames.get v.name = v.name
  new : own.variableNames.get (ρ.newName v).name = (ρ.newName v).name

variable {ρ : Rewording} {v : Variable} {shader : String} {s : Shader} {before after : Bool}

abbrev mirrorOf (ρ : Rewording) (v : Variable) : Mirror State := ρ.mirror (TableClear ρ v)

namespace ClearFor

lemma fixes (hρ : ClearFor ρ shader v) {t : String} (h : t ∈ languageTexts) : ρ.Fixes t :=
  hρ.own t (List.mem_append_left _ h)

lemma fixes_made (hρ : ClearFor ρ shader v) {t : String} (h : t ∈ shaderTexts shader) :
    ρ.Fixes t :=
  hρ.own t (List.mem_append_right _ h)

lemma fixes_entry (hρ : ClearFor ρ shader v) {e : String × String} (h : e ∈ types.entries ++
    qualifiers.entries ++ functions.entries ++ (inputTable inputName).entries) : ρ.Fixes e.2 :=
  hρ.fixes (List.mem_append_right _ (List.mem_map_of_mem h))

lemma fixes_function (hρ : ClearFor ρ shader v) {name : String} (hname : isIdentifier name = true)
    (hne : name ≠ v.name) : ρ.Fixes (functions.get name) :=
  Rewording.fixes_get (fun _ he => hρ.fixes_entry (by simp [he]))
    (Rewording.fixes_other hρ.only hname hne)

lemma tableClear_start (hρ : ClearFor ρ shader v) : TableClear ρ v {} where
  values _ he := hρ.fixes_entry (List.mem_append_right _ he)
  old := get_inputTable_of_not_mem inputName hρ.old
  new := get_inputTable_of_not_mem inputName hρ.new

end ClearFor

/-! ### Calls -/

lemma mirrors_modifyOwn {change : State → State}
    (h : ∀ own, (change own).variableNames = own.variableNames) :
    Emit.Mirrors (mirrorOf ρ v) before before Eq (modifyOwn change) (modifyOwn change) := by
  refine .change (fun w hw => ⟨?_, hw.accumulator, hw.markName, hw.markInit⟩) (fun _ => rfl)
    fun _ => rfl
  obtain ⟨hvalues, hold, hnew⟩ := hw.own
  rw [← h] at hvalues hold hnew
  exact ⟨hvalues, hold, hnew⟩

lemma mirrors_callHelper (hρ : ClearFor ρ shader v) {name : String} (hname : ρ.Fixes name)
    {steps steps' : List (Operand State)}
    (h : List.Forall₂ (fun o o' => Emit.Mirrors (mirrorOf ρ v) true false Eq o.write o'.write)
      steps steps') :
    Emit.Mirrors (mirrorOf ρ v) true false Eq (callHelper name steps) (callHelper name steps') := by
  have hhandles : ρ.Fixes "(_sampler, _uniforms" := hρ.fixes (by simp [languageTexts])
  refine .seq (word (hname.append_of_starts hhandles (by decide)))
    (.seq (?_ : Emit.Mirrors (mirrorOf ρ v) false false Eq _ _) (mark (by decide) (by simp)))
  induction h with
  | nil => exact .pure rfl
  | cons hstep _ ih => exact .seq (.seq (mark (by decide) (by simp)) hstep) ih

lemma mirrors_call (hρ : ClearFor ρ shader v) {callee : String} {args : List Expr}
    (hcall : (Expr.call callee args).ClearOf v)
    (hargs : ∀ e ∈ Expr.partsOf args, Emit.Mirrors (mirrorOf ρ v) true false Eq
      ((exprDialect functions).expr e) ((exprDialect functions).expr (e.rename (ρ.newName v)))) :
    Emit.Mirrors (mirrorOf ρ v) true false Eq
      (call functions callee (args.map (exprDialect functions).operand))
      (call functions callee
        ((args.map (Expr.rename (ρ.newName v))).map (exprDialect functions).operand)) := by
  have hcallee := hρ.fixes_function hcall.1 hcall.2
  have hatan : ρ.Fixes "atan2" := hρ.fixes (by simp [languageTexts])
  have hoperands := ExprDialect.forall₂_operands hargs
  unfold call
  split
  · exact .seq (mirrors_modifyOwn fun _ => rfl) (ExprDialect.mirrors_callNamed hcallee hoperands)
  · split
    · exact mirrors_callHelper hρ hcallee hoperands
    · unfold ExprDialect.callMapped
      simp only [List.length_map]
      split
      · exact ExprDialect.mirrors_callNamed hatan hoperands
      · exact ExprDialect.mirrors_callNamed hcallee hoperands

lemma equivariant_exprDialect (hρ : ClearFor ρ shader v) :
    (exprDialect functions).Equivariant ρ (TableClear ρ v) v (Expr.ClearOf v) where
  only := hρ.only
  clear _ h := h
  types := ⟨rfl, fun _ (he : _ ∈ types.entries) => hρ.fixes_entry (by simp [he])⟩
  qualifiers := ⟨rfl, fun _ (he : _ ∈ qualifiers.entries) => hρ.fixes_entry (by simp [he])⟩
  values _ h := h.values
  old _ h := h.old
  new _ h := h.new
  call _ _ hcall _ := mirrors_call hρ hcall

/-! ### Declarations -/

variable {x : VarDecl}

/-- The field of a parameter, under which the parameter is called from then on. -/
lemma mirrors_declareUniform (hρ : ClearFor ρ shader v) {u : Variable}
    (hname : isIdentifier u.name = true) (hold : u.name ≠ v.name)
    (hnew : u.name ≠ (ρ.newName v).name) :
    Emit.Mirrors (mirrorOf ρ v) true true Eq (declareUniform (exprDialect functions) u)
      (declareUniform (exprDialect functions) u) := by
  have hfield : ρ.Fixes ("_uniforms." ++ u.name) := by
    have hstruct : ρ.Fixes "_uniforms" := hρ.fixes (by simp [languageTexts])
    rw [show "_uniforms." = "_uniforms" ++ "." from rfl, String.append_assoc]
    exact hstruct.append_of_starts (Rewording.fixes_member hname) (Rewording.startsApart_member _)
  unfold declareUniform
  refine .get fun w _ => ?_
  show Emit.Mirrors _ _ _ _ (if (w.own.uniforms.any _) = true then _ else _)
    (if (w.own.uniforms.any _) = true then _ else _)
  split
  · exact .pure rfl
  · refine ((equivariant_exprDialect hρ).typeName _).bind fun type type' htype => ?_
    obtain ⟨rfl, -⟩ := htype
    refine .change (fun w hw => ⟨⟨fun e he => ?_, ?_, ?_⟩, hw.accumulator, hw.markName,
      hw.markInit⟩) (fun _ => rfl) fun _ => rfl
    · rcases List.mem_cons.mp he with rfl | he
      · exact hfield
      · exact hw.own.values e (List.mem_of_mem_filter he)
    · exact (NameTable.get_insert _ _ _ _).trans ((if_neg hold.symm).trans hw.own.old)
    · exact (NameTable.get_insert _ _ _ _).trans ((if_neg hnew.symm).trans hw.own.new)

lemma mirrors_declare (hρ : ClearFor ρ shader v) (hx : VarClear ρ v x.var)
    (hinit : ∀ p ∈ x.init.parts, p.ClearOf v) :
    Emit.Mirrors (mirrorOf ρ v) true true Eq (declare (exprDialect functions) x)
      (declare (exprDialect functions) (x.rename (ρ.newName v))) := by
  have hd := equivariant_exprDialect hρ
  have hconstant : ρ.Fixes "constant " := hρ.fixes (by simp [languageTexts])
  have hqualifier : (x.rename (ρ.newName v)).var.qualifier = x.var.qualifier :=
    Variable.qualifier_rename _
  have habsent : (x.rename (ρ.newName v)).init.isAbsent = x.init.isAbsent :=
    Expr.isAbsent_rename _
  unfold declare
  rw [hqualifier]
  split
  · exact hd.defineConstant hx.1 hinit
  · rename_i hparam
    obtain ⟨hne, hnew⟩ := hx.2 hparam
    have hvar : (x.rename (ρ.newName v)).var = x.var := Variable.rename_of_ne hne
    rw [hvar]
    refine .get fun w _ => ?_
    rw [Mirror.image_function]
    split
    · exact .throw _ _
    · exact mirrors_declareUniform hρ hx.1.1 (fun h => hne (hx.1.2 h)) hnew
  · refine .get fun w _ => ?_
    rw [Mirror.image_function, habsent]
    split
    · exact hd.varDecl hx.1 hinit
    · dsimp only
      split
      · exact .throw_bind _ _ _
      · exact (hd.varDeclText hx.1 hinit).bind fun t t' ht =>
          writeLine ((hconstant.append_of_ends ht (by decide)).closed (by decide))

lemma equivariant_stmtDialect (hρ : ClearFor ρ shader v) :
    (stmtDialect functions).Equivariant ρ (TableClear ρ v) v (Expr.ClearOf v) (VarClear ρ v) where
  toEquivariant := equivariant_exprDialect hρ
  clearVar _ h := h.1
  texts t ht := by
    refine hρ.fixes ?_
    rcases List.mem_cons.mp ht with rfl | ht
    · simp [languageTexts, stmtDialect]
    · simp only [statementTexts, List.mem_cons, List.not_mem_nil, or_false] at ht
      rcases ht with rfl | rfl | rfl | rfl | rfl | rfl | rfl <;> simp [languageTexts]
  declare _ hx hinit := mirrors_declare hρ hx hinit

/-! ### Functions -/

lemma mirrors_paramText (hρ : ClearFor ρ shader v) {p : VarDecl} (hp : v.ClearOf p.var) :
    Emit.Mirrors (mirrorOf ρ v) before before ρ.Renames (paramText (exprDialect functions) p)
      (paramText (exprDialect functions) (p.rename (ρ.newName v))) := by
  have hd := equivariant_exprDialect hρ
  unfold paramText VarDecl.rename
  simp only [Variable.type_rename, Variable.extent_rename, Variable.out_rename]
  refine (hd.typeName _).bind fun type type' htype =>
    (hd.declaredName hp).bind fun name name' hname => ?_
  obtain ⟨rfl, htype⟩ := htype
  split
  · refine (hd.qualifier _).bind fun q q' hq => .pure ?_
    exact (hq.renames.joined htype (by decide) (by simp)).joined hname (by decide) (by simp)
  · exact .pure (.append_of_starts (.joined htype hname (by decide) (by simp))
      (Rewording.fixes_extent _) (Rewording.startsApart_extent _))

section Define

variable {g : FuncDef}

lemma mirrors_defineEntry (hρ : ClearFor ρ shader v)
    (hg : Decl.ClearOf v (Expr.ClearOf v) (VarClear ρ v) (.func g)) :
    Emit.Mirrors (mirrorOf ρ v) true true Eq (defineEntry (stmtDialect functions) shader g)
      (defineEntry (stmtDialect functions) shader (g.rename (ρ.newName v))) := by
  have hd := equivariant_stmtDialect hρ
  have hmain : ρ.Fixes (prefixed shader entryPointName) := hρ.fixes_made (by simp [shaderTexts])
  have huniforms : ρ.Fixes (uniformsName shader) := hρ.fixes_made (by simp [shaderTexts])
  have hfloat : ρ.Fixes "float4 " := hρ.fixes (by simp [languageTexts])
  have hzero : ρ.Fixes " = float4(0.0);" := hρ.fixes (by simp [languageTexts])
  have hreturns : ρ.Fixes "fragment float4 " := hρ.fixes (by simp [languageTexts])
  have hinput : ρ.Fixes "(FragmentIn _in [[stage_in]], constant " :=
    hρ.fixes (by simp [languageTexts])
  have hhandles : ρ.Fixes "& _uniforms [[buffer(0)]], sampler _sampler [[sampler(0)]])" :=
    hρ.fixes (by simp [languageTexts])
  have hacc := hg.fixes_accumulator hρ.only (fun _ hu => hu.1)
    (hρ.fixes_made (by simp [shaderTexts]))
  have hsignature : ρ.Fixes ("fragment float4 " ++ prefixed shader entryPointName ++
      "(FragmentIn _in [[stage_in]], constant " ++ uniformsName shader ++
      "& _uniforms [[buffer(0)]], sampler _sampler [[sampler(0)]])") := by
    refine .append_of_starts (.append_of_ends (.append_of_starts
      (.append_of_ends hreturns hmain (by decide)) hinput (by decide)) huniforms ?_)
      hhandles (by decide)
    exact endsApart_append (by decide) (by simp)
  unfold defineEntry
  rw [FuncDef.entryFault?_rename (hg.params g rfl), FuncDef.accumulator_rename (hg.params g rfl)]
  split
  · exact .throw _ _
  · refine (hd.variableName hacc).bind fun acc acc' hkept => ?_
    obtain ⟨rfl, hkept⟩ := hkept
    have hinit := (hfloat.append_of_ends hkept (by decide)).append_of_starts hzero (by decide)
    exact .seq (.change (fun u hu => ⟨hu.own, hu.accumulator, hkept, hinit⟩) (fun _ => rfl)
      fun _ => rfl) (hd.funcWithSignature hsignature hg.body_exprs hg.body_vars)

lemma mirrors_define (hρ : ClearFor ρ shader v)
    (hg : Decl.ClearOf v (Expr.ClearOf v) (VarClear ρ v) (.func g)) :
    Emit.Mirrors (mirrorOf ρ v) true true Eq (define (stmtDialect functions) shader g)
      (define (stmtDialect functions) shader (g.rename (ρ.newName v))) := by
  have hd := equivariant_stmtDialect hρ
  obtain ⟨hname, hne⟩ := hg.name g rfl
  have hfunction := hρ.fixes_function hname hne
  -- what comes behind the name, with or without the sampler and the uniforms
  have hrest : ∀ {type : String} {handles : List String}, ρ.Fixes type →
      (∀ t ∈ handles, ρ.Fixes t) → Emit.Mirrors (mirrorOf ρ v) true true Eq
      (do
        let params ← g.params.mapM (paramText (exprDialect functions))
        (stmtDialect functions).funcWithSignature (type ++ " " ++ functions.get g.name ++ "(" ++
          Text.joinWith ", " (handles ++ params) ++ ")") g)
      (do
        let params ← (g.rename (ρ.newName v)).params.mapM (paramText (exprDialect functions))
        (stmtDialect functions).funcWithSignature (type ++ " " ++ functions.get g.name ++ "(" ++
          Text.joinWith ", " (handles ++ params) ++ ")") (g.rename (ρ.newName v))) := by
    intro type handles htype hhandles
    rw [show (g.rename (ρ.newName v)).params = g.params.map (VarDecl.rename (ρ.newName v)) from rfl,
      List.mapM_map]
    refine (Emit.Mirrors.mapM fun p hp => mirrors_paramText hρ (hg.param_vars p hp).1).bind
      fun ts ts' hts => hd.funcWithSignature ?_ hg.body_exprs hg.body_vars
    have hsame : List.Forall₂ ρ.Renames handles handles := List.forall₂_same.mpr hhandles
    have hall := List.rel_append hsame hts
    exact (((htype.joined hfunction (by decide) (by simp)).joined
      (Rewording.Renames.joinWith (by decide) (by simp) hall) (by decide) (by simp)).closed
      (by decide))
  unfold define
  rw [show (g.rename (ρ.newName v)).name = g.name from rfl,
    show (g.rename (ρ.newName v)).returns = g.returns from rfl]
  split
  · exact mirrors_defineEntry hρ hg
  · refine (hd.typeName _).bind fun type type' htype => ?_
    obtain ⟨rfl, htype⟩ := htype
    dsimp only
    split
    · refine .seq (mirrors_modifyOwn fun _ => rfl) (hrest htype ?_)
      have hsampler : ρ.Fixes "sampler _sampler" := hρ.fixes (by simp [languageTexts])
      have hconstant : ρ.Fixes "constant " := hρ.fixes (by simp [languageTexts])
      have hreference : ρ.Fixes "& _uniforms" := hρ.fixes (by simp [languageTexts])
      have hname : ρ.Fixes (uniformsName shader) := hρ.fixes_made (by simp [shaderTexts])
      have huniforms := (hconstant.append_of_ends hname (by decide)).append_of_starts hreference
        (by decide)
      simpa using ⟨hsampler, huniforms⟩
    · exact hrest htype (by simp)

end Define

/-! ### Shaders -/

lemma equivariant_dialect (hρ : ClearFor ρ shader v) :
    (dialect functions shader).Equivariant ρ (TableClear ρ v) v (Expr.ClearOf v)
      (VarClear ρ v) where
  statements := equivariant_stmtDialect hρ
  define _ := mirrors_define hρ

/-- The old and the new name of a variable have nothing to do with the helpers of a shader and with
the function that reads textures. -/
structure HelpersClear (ρ : Rewording) (s : Shader) : Prop where
  name : isIdentifier s.name = true
  old : ∀ n ∈ ρ.old, n ∉ sampleFunction :: helperNames s ∧
    ∀ m ∈ helperNames s, n ≠ prefixed s.name m
  new : ∀ n ∈ ρ.old, ρ.new n ∉ sampleFunction :: helperNames s

/-- The text of the declarations with the final names of the helpers in it, before and after the
variable is renamed. -/
lemma rename_rename (hρ : ClearFor ρ s.name v) (hwords : ρ.ToWords)
    (hclear : HelpersClear ρ s) (hhelpers : ∀ n ∈ helperNames s, isIdentifier n = true)
    {samples : Bool} {t body : String}
    (h : rename s.name (helperNames s) samples t = some body) :
    rename s.name (helperNames s) samples (ρ.text t) = some (ρ.text body) := by
  let τ : Renaming := .of s.name (helperNames s) hhelpers
  have hindependent : ρ.Independent τ.toRewording := by
    refine ⟨fun n hn => ⟨fun hmem => ?_, fun hmem => ?_⟩, fun m hm hmem => ?_⟩
    · exact (hclear.old n hn).1 (List.mem_cons_of_mem _ hmem)
    · exact hclear.new n hn (List.mem_cons_of_mem _ hmem)
    · exact (hclear.old _ hmem).2 m hm rfl
  have hreads : ρ.SparesReads s.name := by
    refine ⟨fun hmem => (hclear.old _ hmem).1 List.mem_cons_self, fun n hn heq => ?_,
      hρ.fixes_made (by simp [shaderTexts])⟩
    exact hclear.new n hn (heq ▸ List.mem_cons_self)
  exact τ.rename_text hindependent hreads hwords (isWord_of_isIdentifier hclear.name).word h

lemma translate_rename (hρ : ClearFor ρ s.name v) (hwords : ρ.ToWords)
    (hclear : HelpersClear ρ s)
    (hs : ∀ x ∈ s.decls, x.ClearOf v (Expr.ClearOf v) (VarClear ρ v)) {common text : String}
    {own : State} (h : translate common (some s) = .ok (text, own)) :
    ∃ body, text = assemble s.name common own body ∧
      translate common (some (s.rename (ρ.newName v))) =
        .ok (assemble s.name common own (ρ.text body), own) := by
  obtain ⟨hname, w, body, hw, hbody, rfl, rfl⟩ := translate_eq_ok.mp h
  have hhelpers : ∀ n ∈ helperNames s, isIdentifier n = true := by
    intro n hn
    obtain ⟨f, hf, rfl, -⟩ := mem_helperNames.mp hn
    exact ((hs _ hf).name f rfl).1
  have hw' := (equivariant_dialect hρ).exec_decls hs hρ.tableClear_start hw
  rw [helpers_of_exec hw] at hbody
  refine ⟨body, rfl, translate_eq_ok.mpr ⟨hname, _, _, hw', ?_, rfl, rfl⟩⟩
  show rename s.name w.own.helpers w.own.samples (ρ.text w.out) = some (ρ.text body)
  rw [helpers_of_exec hw]
  exact rename_rename hρ hwords hclear hhelpers hbody

/-- The name of the variable is replaced in the text of the declarations, and that is all. -/
lemma compile_rename (hρ : ClearFor ρ s.name v) (hwords : ρ.ToWords)
    (hclear : HelpersClear ρ s)
    (hs : ∀ x ∈ s.decls, x.ClearOf v (Expr.ClearOf v) (VarClear ρ v)) {o : Options}
    {library library' : Option Library} {w w' : World} {out : Output}
    (h : compile o library (some s) w = ((.ok out, library'), w')) :
    ∃ own body, out.uniforms = own.uniforms ∧
      out.text = assemble s.name (commonHeaderOf library) own body ∧
      compile o library (some (s.rename (ρ.newName v))) w = ((.ok { out with
        text := assemble s.name (commonHeaderOf library) own (ρ.text body) }, library'), w') := by
  obtain ⟨text, own, ht, rfl⟩ := translate_of_compile (congrArg (fun r => r.1.1) h)
  obtain ⟨body, rfl, ht'⟩ := translate_rename hρ hwords hclear hs ht
  refine ⟨own, body, rfl, rfl, ?_⟩
  unfold compile at h ⊢
  rw [← commonHeaderOf] at h ⊢
  simp only [ht, ht', Option.map_some, Option.getD_some, Build.bind_apply, Build.pure_apply] at h ⊢
  cases library <;> (cases h; rfl)

end Shaderwright.Msl
