import Mathlib.Tactic.Common
import Shaderwright.Proofs.Hlsl.Acceptance
import Shaderwright.Proofs.Msl.Acceptance
import Shaderwright.Proofs.Msl.Compile

/-!
Stage inputs belong to the entry point. What is written outside of it shows no stage input in
either language, with one exception: where a texture has to be named, nobody looks at what the
name refers to.
-/

namespace Shaderwright

/-! ### The stage inputs that are written -/

mutual

/-- The stage inputs that are written as a part of an expression. The name of a texture is not
among them where a rule asks for it. -/
def Expr.inputs (rule : SampleRule) : Expr → List String
  | .absent => []
  | .ident name ref => if isStageInput name ref then [name] else []
  | .literal _ _ => []
  | .call callee args =>
    if rule = .named ∧ callee = sampleFunction then sampleInputs rule args else inputsOf rule args
  | .binary _ x y => x.inputs rule ++ y.inputs rule
  | .unary _ x => x.inputs rule
  | .assign _ lhs rhs => lhs.inputs rule ++ rhs.inputs rule
  | .member x _ => x.inputs rule
  | .index x i => x.inputs rule ++ i.inputs rule

def Expr.sampleInputs (rule : SampleRule) : List Expr → List String
  | [.ident _ _, uv] => uv.inputs rule
  | [.index (.ident _ _) i, uv] => i.inputs rule ++ uv.inputs rule
  | [] => []
  | e :: es => e.inputs rule ++ inputsOf rule es

def Expr.inputsOf (rule : SampleRule) : List Expr → List String
  | [] => []
  | e :: es => e.inputs rule ++ inputsOf rule es

end

lemma Expr.inputsOf_eq_flatMap (rule : SampleRule) (es : List Expr) :
    Expr.inputsOf rule es = es.flatMap (Expr.inputs rule) := by
  induction es with
  | nil => simp [Expr.inputsOf]
  | cons e es ih => simp [Expr.inputsOf, ih]

mutual

def Stmt.inputs (rule : SampleRule) : Stmt → List String
  | .absent => []
  | .block ss => inputsOf rule ss
  | .decl v => v.init.inputs rule
  | .expr x => x.inputs rule
  | .returns value => value.inputs rule
  | .ifElse cond yes no => cond.inputs rule ++ yes.inputs rule ++ no.inputs rule
  | .loop init cond post body =>
    init.inputs rule ++ cond.inputs rule ++ post.inputs rule ++ body.inputs rule
  | .discard => []
  | .breakLoop => []
  | .continueLoop => []

def Stmt.inputsOf (rule : SampleRule) : List Stmt → List String
  | [] => []
  | s :: ss => s.inputs rule ++ inputsOf rule ss

end

lemma Stmt.inputsOf_eq_flatMap (rule : SampleRule) (ss : List Stmt) :
    Stmt.inputsOf rule ss = ss.flatMap (Stmt.inputs rule) := by
  induction ss with
  | nil => simp [Stmt.inputsOf]
  | cons s ss ih => simp [Stmt.inputsOf, ih]

/-- The stage inputs that are written outside of the entry point. The value of a parameter of the
shader is never written. -/
def Decl.strayInputs (rule : SampleRule) : Decl → List String
  | .absent => []
  | .var v => if v.var.qualifier = .param then [] else v.init.inputs rule
  | .func f => if f.name = entryPointName then [] else Stmt.inputsOf rule f.body

def Shader.strayInputs (rule : SampleRule) (s : Shader) : List String :=
  s.decls.flatMap (Decl.strayInputs rule)

/-! ### All stage inputs -/

/-- One of the expressions reads the stage input of this name. -/
def ReadsInput (name : String) (es : List Expr) : Prop :=
  ∃ ref, isStageInput name ref = true ∧ .ident name ref ∈ es

namespace ReadsInput

variable {name : String}

@[simp] lemma nil : ¬ ReadsInput name [] := by simp [ReadsInput]

@[simp] lemma append {es es' : List Expr} :
    ReadsInput name (es ++ es') ↔ ReadsInput name es ∨ ReadsInput name es' := by
  simp [ReadsInput, and_or_left, exists_or]

lemma cons {e : Expr} {es : List Expr} (he : ∀ name ref, e ≠ .ident name ref) :
    ReadsInput name (e :: es) ↔ ReadsInput name es := by
  simp [ReadsInput, (he name _).symm]

lemma flatMap {α : Type} {xs : List α} {g : α → List Expr} :
    ReadsInput name (xs.flatMap g) ↔ ∃ x ∈ xs, ReadsInput name (g x) := by
  simp only [ReadsInput, List.mem_flatMap]
  constructor
  · rintro ⟨ref, hinput, x, hx, hmem⟩
    exact ⟨x, hx, ref, hinput, hmem⟩
  · rintro ⟨x, hx, ref, hinput, hmem⟩
    exact ⟨ref, hinput, x, hx, hmem⟩

end ReadsInput

/-- Under the rule of calls every stage input is written that stands in the expression. -/
lemma Expr.mem_inputs_call {name : String} {e : Expr} :
    name ∈ e.inputs .call ↔ ReadsInput name e.parts := by
  induction e using Expr.inductOn with
  | absent => simp [inputs, parts, ReadsInput]
  | ident name' ref =>
    by_cases hinput : isStageInput name' ref = true
    · simp only [inputs, hinput, if_true, List.mem_singleton, ReadsInput, parts, Expr.ident.injEq]
      constructor
      · rintro rfl
        exact ⟨ref, hinput, rfl, rfl⟩
      · rintro ⟨_, -, rfl, -⟩
        rfl
    · simp only [inputs, hinput, ReadsInput, parts, List.mem_singleton, Expr.ident.injEq]
      constructor
      · simp
      · rintro ⟨_, hinput', rfl, rfl⟩
        exact absurd hinput' hinput
  | literal text kind => simp [inputs, parts, ReadsInput]
  | call callee args ih =>
    rw [parts, ReadsInput.cons (by simp), partsOf_eq_flatMap, ReadsInput.flatMap]
    simp only [inputs, reduceCtorEq, false_and, if_false, inputsOf_eq_flatMap, List.mem_flatMap]
    exact exists_congr fun arg => and_congr_right fun harg => ih arg harg
  | binary op x y hx hy =>
    rw [parts, ReadsInput.cons (by simp), ReadsInput.append, inputs, List.mem_append, hx, hy]
  | unary op x hx => rw [parts, ReadsInput.cons (by simp), inputs, hx]
  | assign op lhs rhs hl hr =>
    rw [parts, ReadsInput.cons (by simp), ReadsInput.append, inputs, List.mem_append, hl, hr]
  | member x field hx => rw [parts, ReadsInput.cons (by simp), inputs, hx]
  | index x i hx hi =>
    rw [parts, ReadsInput.cons (by simp), ReadsInput.append, inputs, List.mem_append, hx, hi]

lemma Stmt.mem_inputs_call {name : String} {s : Stmt} :
    name ∈ s.inputs .call ↔ ReadsInput name s.exprs := by
  induction s using Stmt.inductOn with
  | block ss ih =>
    rw [exprs, exprsOf_eq_flatMap, ReadsInput.flatMap, inputs, inputsOf_eq_flatMap,
      List.mem_flatMap]
    exact exists_congr fun s => and_congr_right fun hs => ih s hs
  | ifElse cond yes no hyes hno => simp [inputs, exprs, hyes, hno, Expr.mem_inputs_call]
  | loop init cond post body hinit hbody =>
    simp [inputs, exprs, hinit, hbody, Expr.mem_inputs_call]
  | _ => simp [inputs, exprs, Expr.mem_inputs_call]

/-- A shader has stray inputs under the rule of calls as soon as one stands in the value of a
variable, a parameter aside, or anywhere in the body of another function than the entry point. -/
lemma Shader.mem_strayInputs_call {name : String} {s : Shader} :
    name ∈ s.strayInputs .call ↔
      (∃ v, .var v ∈ s.decls ∧ v.var.qualifier ≠ .param ∧ ReadsInput name v.init.parts) ∨
        ∃ f, .func f ∈ s.decls ∧ f.name ≠ entryPointName ∧
          ReadsInput name (Stmt.exprsOf f.body) := by
  have hbody : ∀ f : FuncDef, name ∈ Stmt.inputsOf .call f.body ↔
      ReadsInput name (Stmt.exprsOf f.body) := by
    intro f
    simpa only [Stmt.inputs, Stmt.exprs] using Stmt.mem_inputs_call (s := .block f.body)
  unfold strayInputs
  simp only [List.mem_flatMap]
  constructor
  · rintro ⟨x, hx, hmem⟩
    cases x with
    | absent => simp [Decl.strayInputs] at hmem
    | var v =>
      by_cases hparam : v.var.qualifier = .param
      · simp [Decl.strayInputs, hparam] at hmem
      · rw [Decl.strayInputs, if_neg hparam] at hmem
        exact .inl ⟨v, hx, hparam, Expr.mem_inputs_call.mp hmem⟩
    | func f =>
      by_cases hname : f.name = entryPointName
      · simp [Decl.strayInputs, hname] at hmem
      · rw [Decl.strayInputs, if_neg hname] at hmem
        exact .inr ⟨f, hx, hname, (hbody f).mp hmem⟩
  · rintro (⟨v, hv, hparam, hreads⟩ | ⟨f, hf, hname, hreads⟩)
    · refine ⟨_, hv, ?_⟩
      rw [Decl.strayInputs, if_neg hparam]
      exact Expr.mem_inputs_call.mpr hreads
    · refine ⟨_, hf, ?_⟩
      rw [Decl.strayInputs, if_neg hname]
      exact (hbody f).mpr hreads

/-! ### What can be written where -/

section Reach

variable {rule : SampleRule} {f : Option String}

/-- A part of a shader that can be written in a function exactly if it can be in the entry point and
writes no stage input. -/
def Confined (writable : Option String → Bool) (inputs : List String) : Prop :=
  ∀ f, f ≠ some entryPointName →
    (writable f = true ↔ writable (some entryPointName) = true ∧ inputs = [])

namespace Confined

variable {p q : Option String → Bool} {xs ys : List String}

lemma const (b : Bool) : Confined (fun _ => b) [] := fun _ _ => by simp

lemma and (hp : Confined p xs) (hq : Confined q ys) :
    Confined (fun f => p f && q f) (xs ++ ys) := by
  intro f hf
  rw [Bool.and_eq_true, Bool.and_eq_true, List.append_eq_nil_iff, hp f hf, hq f hf]
  exact and_and_and_comm

lemma optional {e : Expr} (h : Confined (fun f => e.writable rule f) (e.inputs rule)) :
    Confined (fun f => e.isAbsent || e.writable rule f) (e.inputs rule) := by
  cases e with
  | absent => exact fun f _ => by simp [Expr.isAbsent, Expr.inputs]
  | _ => exact h

lemma forall_mem {α : Type} {as : List α} {p : α → Option String → Bool} {g : α → List String}
    (h : ∀ a ∈ as, Confined (p a) (g a)) :
    Confined (fun f => as.all (p · f)) (as.flatMap g) := by
  induction as with
  | nil => exact const true
  | cons a as ih =>
    rw [List.flatMap_cons]
    exact (h a List.mem_cons_self).and (ih fun b hb => h b (List.mem_cons_of_mem _ hb))

end Confined

lemma Expr.confined_sample {args : List Expr}
    (h : ∀ e ∈ args, Confined (e.writable .named) (e.inputs .named) ∧
      ∀ name ref i, e = .index (.ident name ref) i →
        Confined (i.writable .named) (i.inputs .named)) :
    Confined (sampleWritable .named · args) (sampleInputs .named args) := by
  by_cases hwhole : ∃ name ref uv, args = [.ident name ref, uv]
  · obtain ⟨name, ref, uv, rfl⟩ := hwhole
    exact (h uv (by simp)).1
  by_cases helement : ∃ name ref i uv, args = [.index (.ident name ref) i, uv]
  · obtain ⟨name, ref, i, uv, rfl⟩ := helement
    exact ((h _ (by simp)).2 name ref i rfl).and (h uv (by simp)).1
  · have hrefused : ∀ f, sampleWritable .named f args = false := by
      intro f
      unfold sampleWritable
      split
      · exact absurd ⟨_, _, _, rfl⟩ hwhole
      · exact absurd ⟨_, _, _, _, rfl⟩ helement
      · rfl
    exact fun f _ => by simp [hrefused]

lemma Expr.confined (rule : SampleRule) (e : Expr) :
    Confined (e.writable rule) (e.inputs rule) := by
  -- the index of an array element counts by itself, because its array may be a named texture
  suffices hboth : Confined (e.writable rule) (e.inputs rule) ∧
      ∀ name ref i, e = .index (.ident name ref) i → Confined (i.writable rule) (i.inputs rule) from
    hboth.1
  have hplain : ∀ {e : Expr}, (∀ name ref i, e ≠ .index (.ident name ref) i) →
      Confined (e.writable rule) (e.inputs rule) →
      Confined (e.writable rule) (e.inputs rule) ∧ ∀ name ref i, e = .index (.ident name ref) i →
        Confined (i.writable rule) (i.inputs rule) :=
    fun hnot he => ⟨he, fun name ref i h => absurd h (hnot name ref i)⟩
  induction e using Expr.inductOn with
  | absent => exact hplain (by simp) fun f _ => by simp [writable, inputs]
  | ident name ref => exact hplain (by simp) fun f hf => by simp [writable, inputs, hf]
  | literal text kind => exact hplain (by simp) fun f _ => by simp [writable, inputs]
  | call callee args ih =>
    refine hplain (by simp) fun f hf => ?_
    by_cases hsample : rule = .named ∧ callee = sampleFunction
    · obtain ⟨rfl, rfl⟩ := hsample
      simpa [writable, inputs] using confined_sample ih f hf
    · simp only [writable, inputs, if_neg hsample, inputsOf_eq_flatMap, allWritable_eq_true]
      simpa using Confined.forall_mem (fun e he => (ih e he).1) f hf
  | binary op x y hx hy => exact hplain (by simp) (hx.1.and hy.1)
  | unary op x hx => exact hplain (by simp) hx.1
  | assign op lhs rhs hl hr => exact hplain (by simp) (hl.1.and hr.1)
  | member x field hx => exact hplain (by simp) hx.1
  | index x i hx hi =>
    refine ⟨hx.1.and hi.1, fun name ref j h => ?_⟩
    rw [← (Expr.index.inj h).2]
    exact hi.1

namespace VarDecl

lemma confined (rule : SampleRule) (v : VarDecl) :
    Confined (v.writable rule) (v.init.inputs rule) :=
  (Confined.const _).and (v.init.confined rule).optional

lemma confined_const (rule : SampleRule) (v : VarDecl) :
    Confined (v.constWritable rule) (v.init.inputs rule) :=
  (Confined.const _).and (v.init.confined rule)

end VarDecl

lemma Stmt.confined_start (rule : SampleRule) (s : Stmt) :
    Confined (s.startWritable rule) (s.inputs rule) := by
  cases s with
  | absent => exact .const true
  | decl v => exact v.confined rule
  | expr x => exact x.confined rule
  | _ => exact fun f _ => by simp [startWritable]

lemma Stmt.confined (rule : SampleRule) (s : Stmt) :
    Confined (s.writable rule) (s.inputs rule) := by
  induction s using Stmt.inductOn with
  | absent => exact fun f _ => by simp [writable]
  | block ss ih =>
    intro f hf
    simp only [writable, inputs, inputsOf_eq_flatMap, allWritable_eq_true]
    simpa using Confined.forall_mem ih f hf
  | decl v =>
    intro f hf
    simp only [writable, inputs, VarDecl.localWritable]
    cases v.var.qualifier with
    | const => exact v.confined_const rule f hf
    | param => simp
    | _ => exact v.confined rule f hf
  | expr x => exact x.confined rule
  | returns value => exact (value.confined rule).optional
  | ifElse cond yes no hyes hno =>
    have hno' : Confined (fun f => no.isAbsent || no.writable rule f) (no.inputs rule) := by
      cases no with
      | absent => exact fun f _ => by simp [isAbsent, inputs]
      | _ => exact hno
    exact ((cond.confined rule).and hyes).and hno'
  | loop init cond post body _ hbody =>
    exact (((init.confined_start rule).and (cond.confined rule).optional).and
      (post.confined rule).optional).and hbody
  | discard => exact .const true
  | breakLoop => exact .const true
  | continueLoop => exact .const true

/-- No function but the entry point writes a stage input. -/
lemma FuncDef.inputs_of_writable {rule : SampleRule} {f : FuncDef} (h : f.writable rule = true)
    (hname : f.name ≠ entryPointName) : Stmt.inputsOf rule f.body = [] := by
  rw [writable, Bool.and_eq_true] at h
  have hblock := (Stmt.block f.body).confined rule (some f.name) (by simpa using hname)
  simp only [Stmt.writable, Stmt.inputs] at hblock
  exact (hblock.mp h.2).2

end Reach

/-- Stage inputs are all that an expression is refused for outside of the entry point. -/
lemma ExprDialect.exec_expr_iff {σ : Type} {rule : SampleRule} {d : ExprDialect σ}
    (hd : ∀ f, d.CallsAccept rule f) (e : Expr) (w : Writer σ) :
    (∃ v, (d.expr e).exec w = (.ok (), v)) ↔
      (∃ v, (d.expr e).exec { w with function := some entryPointName } = (.ok (), v)) ∧
        (w.function = some entryPointName ∨ e.inputs rule = []) := by
  have hwritten : ∀ u : Writer σ, (∃ v, (d.expr e).exec u = (.ok (), v)) ↔
      e.writable rule u.function = true := by
    intro u
    rw [← ((hd u.function).expr e).iff u rfl]
    exact ⟨fun ⟨v, hv⟩ => ⟨(), v, hv⟩, fun ⟨_, v, hv⟩ => ⟨v, hv⟩⟩
  rw [hwritten, hwritten]
  by_cases hf : w.function = some entryPointName
  · simp [hf]
  · simpa [hf] using e.confined rule w.function hf

/-! ### Shaders -/

/-- A declaration writes no stage input outside of the entry point if its function can be written
or its variable outside of all functions. -/
lemma Decl.strayInputs_eq_nil {rule : SampleRule} {x : Decl}
    (hfunc : ∀ f, x = .func f → f.writable rule = true)
    (hvar : ∀ v, x = .var v → v.var.qualifier ≠ .param →
      v.constWritable rule none = true ∨ v.writable rule none = true) :
    x.strayInputs rule = [] := by
  cases x with
  | absent => rfl
  | func f =>
    by_cases hname : f.name = entryPointName
    · rw [strayInputs, if_pos hname]
    · rw [strayInputs, if_neg hname]
      exact FuncDef.inputs_of_writable (hfunc f rfl) hname
  | var v =>
    by_cases hparam : v.var.qualifier = .param
    · rw [strayInputs, if_pos hparam]
    · rw [strayInputs, if_neg hparam]
      rcases hvar v rfl hparam with h | h
      · exact ((v.confined_const rule none (by simp)).mp h).2
      · exact ((v.confined rule none (by simp)).mp h).2

namespace Hlsl

lemma strayInputs_of_declWritable {x : Decl} (h : declWritable x = true) :
    x.strayInputs .named = [] := by
  refine Decl.strayInputs_eq_nil (fun f hf => by simpa [hf, declWritable] using h) ?_
  rintro v rfl hparam
  unfold declWritable at h
  dsimp only at h
  cases hv : v.var.qualifier with
  | const => exact .inl (by simpa [hv] using h)
  | param => exact absurd hv hparam
  | _ => exact .inr (by simpa [hv] using h)

lemma compile_of_strayInputs {s : Shader} {name : String} (h : name ∈ s.strayInputs .named)
    (o : Options) (w : World) : ∃ e, compile o (some s) w = (.error (.fault e), w) := by
  obtain ⟨x, hx, hname⟩ := List.mem_flatMap.mp h
  rcases ht : translate o (some s) with e | code
  · exact ⟨e, compile_of_translate_error ht w⟩
  · have hwritable := (translate_isOk_iff.mp ⟨code, ht⟩).2 x hx
    rw [strayInputs_of_declWritable hwritable] at hname
    exact absurd hname List.not_mem_nil

end Hlsl

namespace Msl

lemma strayInputs_of_exec {s : Shader} {w : Writer State}
    (h : ((dialect functions s.name).decls s.decls).exec { own := {} } = (.ok (), w)) {x : Decl}
    (hx : x ∈ s.decls) : x.strayInputs .call = [] := by
  rcases hp : x.param? with _ | p
  · have hwritable := declWritable_of_exec h hx hp
    refine Decl.strayInputs_eq_nil (fun f hf => by simpa [hf, declWritable] using hwritable) ?_
    rintro v rfl hparam
    unfold declWritable at hwritable
    dsimp only at hwritable
    cases hv : v.var.qualifier with
    | const => exact .inl (by simpa [hv] using hwritable)
    | param => exact absurd hv hparam
    | _ =>
      rw [hv] at hwritable
      exact .inr (by simpa using (Bool.and_eq_true _ _ ▸ hwritable).2)
  · obtain ⟨v, rfl, hv, -⟩ := Decl.param?_eq_some hp
    rw [Decl.strayInputs, if_pos hv]

lemma compile_of_strayInputs {s : Shader} {name : String} (h : name ∈ s.strayInputs .call)
    (o : Options) (library : Option Library) (w : World) :
    ∃ e, compile o library (some s) w = ((.error (.fault e), library), w) := by
  obtain ⟨x, hx, hmem⟩ := List.mem_flatMap.mp h
  by_cases hname : s.name = ""
  · exact ⟨.refused .unnamedShader, compile_of_translate_error (by simp [translate, hname]) w⟩
  · rcases hexec : ((dialect functions s.name).decls s.decls).exec { own := {} } with ⟨e | _, v⟩
    · refine ⟨e.ofTarget, compile_of_translate_error (translate_of_error hname ?_) w⟩
      rw [hexec]
    · rw [strayInputs_of_exec hexec hx] at hmem
      exact absurd hmem List.not_mem_nil

end Msl

/-! ### Both languages -/

/-- Stage inputs are confined to the entry point. A shader is refused that writes one elsewhere: in
HLSL this leaves out the names of textures, in MSL it is every stage input that stands in the value
of a variable, the parameters of the shader aside, or in the body of another function. And stage
inputs are all that an expression can be refused for outside of the entry point. -/
theorem inputs_confined_to_entry (s : Shader) :
    (∀ name, name ∈ s.strayInputs .named →
      ∀ o w, ∃ e, Hlsl.compile o (some s) w = (.error (.fault e), w)) ∧
    (∀ name,
      ((∃ v, .var v ∈ s.decls ∧ v.var.qualifier ≠ .param ∧ ReadsInput name v.init.parts) ∨
        ∃ f, .func f ∈ s.decls ∧ f.name ≠ entryPointName ∧
          ReadsInput name (Stmt.exprsOf f.body)) →
      ∀ o library w, ∃ e, Msl.compile o library (some s) w = ((.error (.fault e), library), w)) ∧
    (∀ paint e w, (∃ v, ((Hlsl.exprDialect paint).expr e).exec w = (.ok (), v)) ↔
      (∃ v, ((Hlsl.exprDialect paint).expr e).exec { w with function := some entryPointName } =
        (.ok (), v)) ∧ (w.function = some entryPointName ∨ e.inputs .named = [])) ∧
    ∀ names e w, (∃ v, ((Msl.exprDialect names).expr e).exec w = (.ok (), v)) ↔
      (∃ v, ((Msl.exprDialect names).expr e).exec { w with function := some entryPointName } =
        (.ok (), v)) ∧ (w.function = some entryPointName ∨ ∀ name, ¬ ReadsInput name e.parts) := by
  refine ⟨fun name h => Hlsl.compile_of_strayInputs h, fun name h => ?_, fun paint =>
    ExprDialect.exec_expr_iff (Hlsl.callsAccept paint), fun names e w => ?_⟩
  · exact Msl.compile_of_strayInputs (Shader.mem_strayInputs_call.mpr h)
  · rw [ExprDialect.exec_expr_iff (Msl.callsAccept names), List.eq_nil_iff_forall_not_mem]
    simp only [Expr.mem_inputs_call]

def hazeRead : Expr :=
  .call sampleFunction [.ident "mask" .unresolved, .ident "texCoord" (.input .texCoord)]

/-- A texture that is read at a stage input, in a function that is not the entry point. -/
def haze : Shader where
  name := "Haze"
  decls := [
    .var { var := { name := "mask", type := .sampler2D, qualifier := .param } },
    .func { name := "veil", returns := .vec4, body := [.block [.returns hazeRead]] }]

theorem inputs_confined_to_entry_haze :
    (∃ e, Hlsl.compile {} (some haze) {} = (.error (.fault e), {})) ∧
      (∃ e, Msl.compile {} none (some haze) {} = ((.error (.fault e), none), {})) ∧
      (¬ ∃ v, ((Hlsl.exprDialect ⟨"paint", []⟩).expr hazeRead).exec
        { function := some "veil", own := [] } = (.ok (), v)) ∧
      ¬ ∃ v, ((Msl.exprDialect Msl.functions).expr hazeRead).exec
        { function := some "veil", own := {} } = (.ok (), v) := by
  obtain ⟨hhlsl, hmsl, hexpr, hexpr'⟩ := inputs_confined_to_entry haze
  have hreads : ReadsInput "texCoord" hazeRead.parts :=
    ⟨.input .texCoord, rfl, by simp [hazeRead, Expr.parts, Expr.partsOf]⟩
  refine ⟨hhlsl "texCoord" (by decide) {} {}, hmsl "texCoord" (.inr ?_) {} none {}, ?_, ?_⟩
  · exact ⟨_, by simp [haze]; rfl, by decide, by simpa [Stmt.exprsOf, Stmt.exprs] using hreads⟩
  · rw [hexpr]
    rintro ⟨-, hmain | hinputs⟩
    · revert hmain
      decide
    · revert hinputs
      decide
  · rw [hexpr']
    rintro ⟨-, hmain | hinputs⟩
    · revert hmain
      decide
    · exact hinputs "texCoord" hreads

/-- A function that reads a stage input as if it were a texture. -/
def tint : FuncDef where
  name := "tint"
  returns := .vec4
  params := [{ var := { name := "uv", type := .vec2 } }]
  body := [.returns (.call sampleFunction [
    .ident "texCoord" (.input .texCoord), .ident "uv" .unresolved])]

def tinted : Shader := ⟨"Tinted", [.func tint]⟩

def tintedCode : Hlsl.Code where
  text := "// Tinted.hlsl: generated by shadergen\n\n" ++
    "float4 tint(float2 uv) \x7b\n    return _uv.Sample(_uv_sampler, uv);\n\x7d\n\n"
  bindings := []

/-- A parameter of the shader whose value is a stage input. -/
def origin : VarDecl where
  var := { name := "origin", type := .vec2, qualifier := .param }
  init := .ident "texCoord" (.input .texCoord)

def placed : Shader := ⟨"Placed", [.var origin]⟩

/-- HLSL accepts a stage input as the texture of a read outside of the entry point, and both
languages accept one as the value of a parameter. -/
theorem inputs_stray_from_entry :
    (tint.name ≠ entryPointName ∧ ReadsInput "texCoord" (Stmt.exprsOf tint.body) ∧
      ∃ out w', Hlsl.compile {} (some tinted) {} = (.ok out, w') ∧ out.text = tintedCode.text) ∧
    ReadsInput "texCoord" origin.init.parts ∧
      (∃ out w', Hlsl.compile {} (some placed) {} = (.ok out, w')) ∧
      ∃ out, (Msl.compile {} none (some placed) {}).1.1 = .ok out := by
  have hcode : Hlsl.translate {} (some tinted) = .ok tintedCode := by decide +kernel
  have htexture : ReadsInput "texCoord" (Stmt.exprsOf tint.body) :=
    ⟨.input .texCoord, rfl, by simp [tint, Stmt.exprsOf, Stmt.exprs, Expr.parts, Expr.partsOf]⟩
  have hvalue : ReadsInput "texCoord" origin.init.parts :=
    ⟨.input .texCoord, rfl, by simp [origin, Expr.parts]⟩
  obtain ⟨out, w', hout, -⟩ := Hlsl.compile_of_translate {} tinted [] (by rw [hcode]; rfl)
    (by decide +kernel) {}
  have hsame := Except.ok.inj ((Hlsl.translate_of_compile hout).symm.trans hcode)
  obtain ⟨out', w'', hout', -⟩ := Hlsl.compile_of_translate {} placed
    [⟨"origin", .const64, 0, 1⟩] (by decide +kernel) (by decide +kernel) {}
  exact ⟨⟨by decide, htexture, out, w', hout, congrArg Hlsl.Code.text hsame⟩, hvalue,
    ⟨out', w'', hout'⟩, Msl.exists_compile {} {} (by decide +kernel)⟩

end Shaderwright
