import Mathlib.Tactic.Common
import Shaderwright.Proofs.Emit.Acceptance
import Shaderwright.Proofs.Hlsl.Bindings

/-!
The shaders that HLSL accepts. A texture has to be named where it is read, and a parameter has to
be numeric or a sampler.
-/

namespace Shaderwright.Hlsl

variable {paint : Paint} {f : Option String}

lemma accepts_narrowed {d : ExprDialect State} {e : Expr} {p : Prop}
    (he : Emit.Accepts f (d.expr e) p) (param : ShaderType) :
    Emit.Accepts f (narrowed (d.operand e) param) p := by
  unfold narrowed
  dsimp only
  split
  · exact (Emit.Accepts.write _).before fun _ => he.after fun _ =>
      (Emit.Accepts.write _).before fun _ => .write _
  · exact he.after fun _ => .write _

lemma accepts_paintArgs {d : ExprDialect State} {args : List Expr} {q : Expr → Prop}
    (h : ∀ e ∈ args, Emit.Accepts f (d.expr e) (q e)) (params : List ShaderType) :
    List.Forall₂ (fun step e => Emit.Accepts f step (q e))
      (paintArgs (args.map d.operand) params) args := by
  induction args generalizing params with
  | nil => simp [paintArgs]
  | cons e args ih =>
    have he := h e List.mem_cons_self
    have hrest := ih fun x hx => h x (List.mem_cons_of_mem _ hx)
    cases params with
    | nil => exact .cons he (hrest [])
    | cons param params => exact .cons (accepts_narrowed he param) (hrest params)

/-- A texture read names the texture, so that nothing but an index and the position are written. -/
lemma accepts_callSample {args : List Expr}
    (h : ∀ e ∈ args, (exprDialect paint).OperandAccepts .named f e) :
    Emit.Accepts f (callSample (args.map (exprDialect paint).operand))
      (Expr.sampleWritable .named f args = true) := by
  by_cases hlength : args.length = 2
  · obtain ⟨texture, uv, rfl⟩ := List.length_eq_two.mp hlength
    have huv := (h uv (by simp)).write
    have hindex := (h texture (by simp)).element
    have hrest : ∀ x : String × String, Emit.Accepts f (do
        Emit.write (x.1 ++ ".Sample(" ++ x.2 ++ ", ")
        (exprDialect paint).expr uv
        Emit.write ")") (uv.writable .named f = true) := fun x =>
      (Emit.Accepts.write _).before fun _ => huv.after fun _ => .write _
    rw [List.map_cons, List.map_cons, List.map_nil, callSample]
    dsimp only
    split
    · rename_i _ _ name ref heq
      obtain rfl : texture = .ident name ref := heq
      rw [Expr.sampleWritable]
      exact (Emit.Accepts.pure _).before hrest
    · rename_i name index helement _
      unfold ExprDialect.operand at helement
      split at helement
      · rename_i name' ref i _
        obtain ⟨rfl, rfl⟩ := Prod.mk.inj (Option.some.inj helement)
        refine ((hindex name' ref i rfl).captured.bind fun _ =>
          (Emit.Accepts.pure _).before hrest).congr ?_
        rw [Expr.sampleWritable, Bool.and_eq_true]
      · simp at helement
    · rename_i hnone hnot
      have hrefused : Expr.sampleWritable .named f [texture, uv] = false := by
        unfold Expr.sampleWritable
        split
        · rename_i heq
          exact absurd (List.cons.inj heq).1 (hnot _ _)
        · rename_i heq
          rw [(List.cons.inj heq).1] at hnone
          simp [ExprDialect.operand] at hnone
        · rfl
      exact ((Emit.Accepts.throw _).bind hrest).congr (by simp [hrefused])
  · unfold callSample
    split
    · rename_i heq
      exact absurd (by simpa using congrArg List.length heq) hlength
    · exact (Emit.Accepts.throw _).congr (by simp [Expr.sampleWritable_of_length hlength])

lemma callsAccept (paint : Paint) (f : Option String) :
    (exprDialect paint).CallsAccept .named f := by
  intro callee args h
  show Emit.Accepts f (call paint callee _) _
  unfold call
  split
  · rename_i hcallee
    exact (accepts_callSample h).congr (by simp [Expr.writable, hcallee])
  · rename_i hcallee
    have hcall : (∀ e ∈ args, e.writable .named f = true) ↔
        (Expr.call callee args).writable .named f = true := by
      simp [Expr.writable, hcallee, Expr.allWritable_eq_true]
    split
    · exact ((Emit.Accepts.write _).before fun _ => (Emit.Accepts.separated ", "
        (accepts_paintArgs (fun e he => (h e he).write) _)).after fun _ => .write _).congr hcall
    · unfold ExprDialect.callMapped
      split <;> exact (ExprDialect.accepts_callNamed _ h).congr hcall

lemma exprAccepting (paint : Paint) (f : Option String) :
    (exprDialect paint).Accepting .named f where
  calls := callsAccept paint f
  types := ⟨_, rfl⟩
  qualifiers := ⟨_, _, rfl⟩

/-- Inside a function no parameter is declared. -/
lemma stmtAccepting (paint : Paint) (f : String) :
    (stmtDialect paint).Accepting .named (some f) where
  toAccepting := exprAccepting paint (some f)
  declare v := by
    have hd := exprAccepting paint (some f)
    show Emit.Accepts (some f) (declare (exprDialect paint) v) _
    unfold declare VarDecl.localWritable
    cases hv : v.var.qualifier with
    | const => exact hd.defineConstant hv
    | param =>
      refine .get fun w hw => ?_
      rw [hw]
      exact (Emit.Accepts.throw _).congr (by simp)
    | _ =>
      refine .get fun w hw => ?_
      rw [hw]
      exact hd.varDecl v

/-! ### Declarations -/

/-- Whether HLSL accepts a declaration. -/
def declWritable : Decl → Bool
  | .absent => false
  | .var v =>
    match v.var.qualifier with
    | .const => v.constWritable .named none
    | .param => v.var.type.isSampler || v.var.type.isNumeric
    | _ => v.writable .named none
  | .func f => f.writable .named

lemma accepts_bind (bs : List Binding) : Emit.Accepts f (bind bs) True := .change fun _ => rfl

lemma accepts_declareTexture {v : Variable} (hs : v.type.isSampler = true) :
    Emit.Accepts none (declareTexture (exprDialect paint) v) True := by
  refine (((exprAccepting paint none).typeName v.type).after fun _ =>
    ((exprDialect paint).accepts_variableName _).before fun _ => (Emit.Accepts.writeLine _).before
    fun _ => (Emit.Accepts.writeLine _).before fun _ => accepts_bind _).congr ?_
  simp [ShaderType.known_of_isSampler hs]

lemma accepts_declareUniform {v : Variable} (hv : v.qualifier = .param) :
    Emit.Accepts none (declareUniform (exprDialect paint) v) (v.type.isNumeric = true) := by
  have hd := exprAccepting paint none
  unfold declareUniform
  split
  · rename_i hnone
    refine (Emit.Accepts.throw _).congr ⟨False.elim, fun hnumeric => ?_⟩
    rw [ofComponents?_eq_some.mpr ⟨hnumeric, rfl⟩] at hnone
    simp at hnone
  · rename_i category hcategory
    have hparam : Qualifier.known .param = true := by decide
    refine ((hd.typeName v.type).bind fun _ => (hd.qualifier v.qualifier).bind fun _ =>
      ((exprDialect paint).accepts_variableName _).before fun _ =>
      (Emit.Accepts.writeLine _).before fun _ => accepts_bind _).congr ?_
    have hnumeric := (ofComponents?_eq_some.mp hcategory).1
    simp [ShaderType.known_of_isNumeric hnumeric, hv, hparam, hnumeric]

lemma accepts_declare (paint : Paint) (v : VarDecl) :
    Emit.Accepts none (declare (exprDialect paint) v) (declWritable (.var v) = true) := by
  have hd := exprAccepting paint none
  unfold declare declWritable
  dsimp only
  cases hv : v.var.qualifier with
  | const => exact hd.defineConstant hv
  | param =>
    refine .get fun w hw => ?_
    rw [hw]
    dsimp only
    split
    · rename_i hs
      exact (accepts_declareTexture hs).congr (by simp [hs])
    · rename_i hs
      exact (accepts_declareUniform hv).congr (by simp [hs])
  | _ =>
    refine .get fun w hw => ?_
    rw [hw]
    exact (hd.varDeclText v).after fun _ => .writeLine _

lemma accepts_define (paint : Paint) (f : FuncDef) :
    Emit.Accepts (some f.name) (define (stmtDialect paint) f) (f.writable .named = true) := by
  have hd := stmtAccepting paint f.name
  unfold define FuncDef.writable
  by_cases hname : f.name = entryPointName
  · rw [if_neg (by simpa using hname), if_pos hname]
    split
    · rename_i why hwhy
      exact (Emit.Accepts.throw _).congr (by simp [hwhy])
    · rename_i hnone
      dsimp only
      refine .congr (.before (ExprDialect.accepts_variableName _ _) fun _ =>
        .before (.change fun _ => rfl) fun _ => hd.funcWithSignature _ f) ?_
      simp [hnone]
  · rw [if_pos hname, if_neg hname]
    refine ((hd.typeName _).bind fun _ => (Emit.Accepts.mapM hd.paramText f.params).bind fun _ =>
      hd.funcWithSignature _ f).congr ?_
    simp only [Bool.and_eq_true, List.all_eq_true, and_assoc]

lemma accepts_decl (paint : Paint) (x : Decl) :
    Emit.Accepts none ((dialect paint).decl x) (declWritable x = true) := by
  cases x with
  | absent => exact (Emit.Accepts.throw _).congr (by simp [declWritable])
  | var v => exact accepts_declare paint v
  | func f => exact Dialect.accepts_func (accepts_define paint f)

/-- HLSL translates a shader exactly if it has a name and all its declarations are writable. -/
lemma translate_isOk_iff {o : Options} {s : Shader} :
    (∃ code, translate o (some s) = .ok code) ↔
      s.name ≠ "" ∧ ∀ x ∈ s.decls, declWritable x = true := by
  have hdecls := (Dialect.accepts_decls fun x (_ : x ∈ s.decls) =>
    accepts_decl (o.paint s) x).iff { out := headerLine s.name, own := [] } rfl
  rw [← hdecls]
  simp only [translate_eq_ok]
  constructor
  · rintro ⟨code, hname, v, hv, -⟩
    exact ⟨hname, (), v, hv⟩
  · rintro ⟨hname, _, v, hv⟩
    exact ⟨_, hname, v, hv, rfl⟩

end Shaderwright.Hlsl
