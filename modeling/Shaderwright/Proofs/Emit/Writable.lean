import Mathlib.Tactic.Common
import Shaderwright.Emit.Names
import Shaderwright.Emit.Shader
import Shaderwright.Proofs.Emit.NameTable
import Shaderwright.Proofs.Shader.Parts

/-!
Which trees can be written at all. The target languages agree on this but for one call: a texture
read may have to name its texture, and then the texture itself is not written as an expression.
-/

namespace Shaderwright

/-- How a language treats the read of a texture: like any other call, or as an operation on a
named texture. -/
inductive SampleRule where
  | call
  | named
  deriving DecidableEq, Repr

mutual

/-- Whether an expression can be written inside `f`. -/
def Expr.writable (rule : SampleRule) (f : Option String) : Expr → Bool
  | .absent => false
  | .ident name ref => !isStageInput name ref || f == some entryPointName
  | .literal _ _ => true
  | .call callee args =>
    if rule = .named ∧ callee = sampleFunction then sampleWritable rule f args
    else allWritable rule f args
  | .binary _ x y => x.writable rule f && y.writable rule f
  | .unary _ x => x.writable rule f
  | .assign _ lhs rhs => lhs.writable rule f && rhs.writable rule f
  | .member x _ => x.writable rule f
  | .index x i => x.writable rule f && i.writable rule f

/-- A read of a named texture or of an element of a named array. -/
def Expr.sampleWritable (rule : SampleRule) (f : Option String) : List Expr → Bool
  | [.ident _ _, uv] => uv.writable rule f
  | [.index (.ident _ _) i, uv] => i.writable rule f && uv.writable rule f
  | _ => false

def Expr.allWritable (rule : SampleRule) (f : Option String) : List Expr → Bool
  | [] => true
  | e :: es => e.writable rule f && allWritable rule f es

end

lemma Expr.allWritable_eq_true {rule : SampleRule} {f : Option String} {es : List Expr} :
    Expr.allWritable rule f es = true ↔ ∀ e ∈ es, e.writable rule f = true := by
  induction es with
  | nil => simp [Expr.allWritable]
  | cons e es ih => simp [Expr.allWritable, ih]

lemma Expr.sampleWritable_of_length {rule : SampleRule} {f : Option String} {args : List Expr}
    (h : args.length ≠ 2) : Expr.sampleWritable rule f args = false := by
  unfold Expr.sampleWritable
  split
  · simp at h
  · simp at h
  · rfl

/-- Whether a type has a name in the target languages, which is the same for all of them. -/
def ShaderType.known (t : ShaderType) : Bool := ((typeTable "").get? t.name).isSome

lemma ShaderType.known_of_isNumeric {t : ShaderType} (h : t.isNumeric = true) :
    t.known = true := by
  obtain ⟨base, arity⟩ := t
  simp only [isNumeric, Bool.and_eq_true, Bool.or_eq_true, beq_iff_eq, decide_eq_true_eq] at h
  have harity : arity = 1 ∨ arity = 2 ∨ arity = 3 ∨ arity = 4 := by omega
  rcases h.1.1 with (rfl | rfl) | rfl <;> rcases harity with rfl | rfl | rfl | rfl <;> decide

lemma ShaderType.known_of_isSampler {t : ShaderType} (h : t.isSampler = true) :
    t.known = true := by
  obtain ⟨base, arity⟩ := t
  obtain rfl : base = .sampler := by simpa [isSampler] using h
  have hname : (⟨.sampler, arity⟩ : ShaderType).name = "sampler2D" := rfl
  rw [known, hname]
  decide

def Qualifier.known (q : Qualifier) : Bool := ((qualifierTable "" "").get? q.text).isSome

lemma Qualifier.known_other (n : Nat) : Qualifier.known (.other n) = false := by
  have hkeys : ∀ key ∈ (qualifierTable "" "").entries.map Prod.fst,
      key.toList.head? ≠ some 'Q' := by decide
  rw [known, Bool.eq_false_iff]
  intro h
  exact hkeys _ ((NameTable.isSome_get?_iff rfl).mp h) (by simp [text])

namespace VarDecl

/-- A declaration with its type, its qualifier and its value. -/
def writable (rule : SampleRule) (f : Option String) (v : VarDecl) : Bool :=
  v.var.type.known && v.var.qualifier.known && (v.init.isAbsent || v.init.writable rule f)

/-- A constant needs nothing but a value. -/
def constWritable (rule : SampleRule) (f : Option String) (v : VarDecl) : Bool :=
  !v.init.isAbsent && v.init.writable rule f

/-- A declaration inside a function, which cannot be a parameter of the shader. -/
def localWritable (rule : SampleRule) (f : Option String) (v : VarDecl) : Bool :=
  match v.var.qualifier with
  | .const => v.constWritable rule f
  | .param => false
  | _ => v.writable rule f

end VarDecl

/-- The start of a loop: nothing, a declaration or an expression. -/
def Stmt.startWritable (rule : SampleRule) (f : Option String) : Stmt → Bool
  | .absent => true
  | .decl v => v.writable rule f
  | .expr x => x.writable rule f
  | _ => false

mutual

/-- Whether a statement can be written inside `f`. -/
def Stmt.writable (rule : SampleRule) (f : Option String) : Stmt → Bool
  | .absent => false
  | .block ss => allWritable rule f ss
  | .decl v => v.localWritable rule f
  | .expr x => x.writable rule f
  | .returns value => value.isAbsent || value.writable rule f
  | .ifElse cond yes no =>
    cond.writable rule f && yes.writable rule f && (no.isAbsent || no.writable rule f)
  | .loop init cond post body =>
    init.startWritable rule f && (cond.isAbsent || cond.writable rule f) &&
      (post.isAbsent || post.writable rule f) && body.writable rule f
  | .discard => true
  | .breakLoop => true
  | .continueLoop => true

def Stmt.allWritable (rule : SampleRule) (f : Option String) : List Stmt → Bool
  | [] => true
  | s :: ss => s.writable rule f && allWritable rule f ss

end

lemma Stmt.allWritable_eq_true {rule : SampleRule} {f : Option String} {ss : List Stmt} :
    Stmt.allWritable rule f ss = true ↔ ∀ s ∈ ss, s.writable rule f = true := by
  induction ss with
  | nil => simp [Stmt.allWritable]
  | cons s ss ih => simp [Stmt.allWritable, ih]

/-- Whether a function can be written: the entry point has to follow its convention, any other
function needs types. -/
def FuncDef.writable (rule : SampleRule) (f : FuncDef) : Bool :=
  (if f.name = entryPointName then f.entryFault?.isNone
    else f.returns.known && f.params.all fun p => p.var.type.known) &&
  Stmt.allWritable rule (some f.name) f.body

/-! ### From one rule to the other -/

/-- A texture read whose texture is a stage input, or an element of one. -/
def Expr.samplesInput : Expr → Bool
  | .call callee (.ident name ref :: _) => callee = sampleFunction && isStageInput name ref
  | .call callee (.index (.ident name ref) _ :: _) =>
    callee = sampleFunction && isStageInput name ref
  | _ => false

/-- The arguments of a read are within reach if the texture is. -/
lemma Expr.writable_of_sampleWritable {f : Option String} {args : List Expr}
    (h : Expr.sampleWritable .named f args = true)
    (hs : f = some entryPointName ∨ (Expr.call sampleFunction args).samplesInput = false) :
    ∀ e ∈ args, e.writable .named f = true := by
  unfold sampleWritable at h
  split at h
  · rename_i name ref uv
    have htexture : (Expr.ident name ref).writable .named f = true := by
      rcases hs with rfl | hs
      · simp [writable]
      · simpa [writable] using .inl (by simpa [samplesInput] using hs)
    simpa using ⟨htexture, h⟩
  · rename_i name ref i uv
    have htexture : (Expr.ident name ref).writable .named f = true := by
      rcases hs with rfl | hs
      · simp [writable]
      · simpa [writable] using .inl (by simpa [samplesInput] using hs)
    rw [Bool.and_eq_true] at h
    have hindex : (Expr.index (.ident name ref) i).writable .named f = true := by
      rw [writable, htexture, h.1]
      rfl
    simpa using ⟨hindex, h.2⟩
  · simp at h

/-- What names its textures can be written by calls too, unless a texture is a stage input that
is out of reach. -/
lemma Expr.writable_call {f : Option String} {e : Expr} (h : e.writable .named f = true)
    (hs : f = some entryPointName ∨ ∀ x ∈ e.parts, x.samplesInput = false) :
    e.writable .call f = true := by
  induction e using Expr.inductOn with
  | absent => simp [writable] at h
  | ident name ref => simpa [writable] using h
  | literal text kind => simp [writable]
  | call callee args ih =>
    have hargs : ∀ e ∈ args, e.writable .named f = true := by
      by_cases hcallee : callee = sampleFunction
      · rw [hcallee] at h hs
        refine writable_of_sampleWritable (by simpa [writable] using h) (hs.imp_right fun hs => ?_)
        exact hs _ (by simp [parts])
      · simpa [writable, hcallee, allWritable_eq_true] using h
    simp only [writable, reduceCtorEq, false_and, if_false, allWritable_eq_true]
    intro e he
    refine ih e he (hargs e he) (hs.imp_right fun hs x hx => hs x ?_)
    rw [parts, partsOf_eq_flatMap]
    exact List.mem_cons_of_mem _ (List.mem_flatMap.mpr ⟨e, he, hx⟩)
  | binary op x y hx hy =>
    simp only [parts, List.forall_mem_cons, List.forall_mem_append] at hs
    simp only [writable, Bool.and_eq_true] at h ⊢
    exact ⟨hx h.1 (hs.imp_right fun hs => hs.2.1), hy h.2 (hs.imp_right fun hs => hs.2.2)⟩
  | unary op x hx =>
    simp only [parts, List.forall_mem_cons] at hs
    simp only [writable] at h ⊢
    exact hx h (hs.imp_right fun hs => hs.2)
  | assign op lhs rhs hl hr =>
    simp only [parts, List.forall_mem_cons, List.forall_mem_append] at hs
    simp only [writable, Bool.and_eq_true] at h ⊢
    exact ⟨hl h.1 (hs.imp_right fun hs => hs.2.1), hr h.2 (hs.imp_right fun hs => hs.2.2)⟩
  | member x field hx =>
    simp only [parts, List.forall_mem_cons] at hs
    simp only [writable] at h ⊢
    exact hx h (hs.imp_right fun hs => hs.2)
  | index x i hx hi =>
    simp only [parts, List.forall_mem_cons, List.forall_mem_append] at hs
    simp only [writable, Bool.and_eq_true] at h ⊢
    exact ⟨hx h.1 (hs.imp_right fun hs => hs.2.1), hi h.2 (hs.imp_right fun hs => hs.2.2)⟩

lemma VarDecl.writable_call {f : Option String} {v : VarDecl} (h : v.writable .named f = true)
    (hs : f = some entryPointName ∨ ∀ x ∈ v.init.parts, x.samplesInput = false) :
    v.writable .call f = true := by
  simp only [writable, Bool.and_eq_true, Bool.or_eq_true] at h ⊢
  exact ⟨h.1, h.2.imp_right fun h => Expr.writable_call h hs⟩

lemma VarDecl.constWritable_call {f : Option String} {v : VarDecl}
    (h : v.constWritable .named f = true)
    (hs : f = some entryPointName ∨ ∀ x ∈ v.init.parts, x.samplesInput = false) :
    v.constWritable .call f = true := by
  simp only [constWritable, Bool.and_eq_true] at h ⊢
  exact ⟨h.1, Expr.writable_call h.2 hs⟩

lemma VarDecl.localWritable_call {f : Option String} {v : VarDecl}
    (h : v.localWritable .named f = true)
    (hs : f = some entryPointName ∨ ∀ x ∈ v.init.parts, x.samplesInput = false) :
    v.localWritable .call f = true := by
  unfold localWritable at h ⊢
  split
  · exact constWritable_call (by simp_all) hs
  · simp_all
  · exact writable_call (by simp_all) hs

lemma Stmt.writable_call {f : Option String} {s : Stmt} (h : s.writable .named f = true)
    (hs : f = some entryPointName ∨ ∀ x ∈ s.exprs, x.samplesInput = false) :
    s.writable .call f = true := by
  induction s using Stmt.inductOn with
  | absent => simp [writable] at h
  | block ss ih =>
    simp only [writable, allWritable_eq_true] at h ⊢
    intro s hmem
    refine ih s hmem (h s hmem) (hs.imp_right fun hs x hx => hs x ?_)
    rw [exprs, exprsOf_eq_flatMap]
    exact List.mem_flatMap.mpr ⟨s, hmem, hx⟩
  | decl v =>
    simp only [writable, exprs] at h hs ⊢
    exact VarDecl.localWritable_call h hs
  | expr x =>
    simp only [writable, exprs] at h hs ⊢
    exact Expr.writable_call h hs
  | returns value =>
    simp only [writable, exprs, Bool.or_eq_true] at h hs ⊢
    exact h.imp_right fun h => Expr.writable_call h hs
  | ifElse cond yes no hyes hno =>
    simp only [writable, exprs, List.forall_mem_append, Bool.and_eq_true, Bool.or_eq_true] at h hs ⊢
    exact ⟨⟨Expr.writable_call h.1.1 (hs.imp_right fun hs => hs.1.1),
      hyes h.1.2 (hs.imp_right fun hs => hs.1.2)⟩,
      h.2.imp_right fun h => hno h (hs.imp_right fun hs => hs.2)⟩
  | loop init cond post body hinit hbody =>
    simp only [writable, exprs, List.forall_mem_append, Bool.and_eq_true, Bool.or_eq_true] at h hs ⊢
    have hstart : init.startWritable .call f = true := by
      have hs' := hs.imp_right fun hs => hs.1.1.1
      cases init with
      | decl v =>
        simp only [startWritable, exprs] at h hs' ⊢
        exact VarDecl.writable_call h.1.1.1 hs'
      | expr x =>
        simp only [startWritable, exprs] at h hs' ⊢
        exact Expr.writable_call h.1.1.1 hs'
      | absent => rfl
      | _ => simp [startWritable] at h
    exact ⟨⟨⟨hstart,
      h.1.1.2.imp_right fun h => Expr.writable_call h (hs.imp_right fun hs => hs.1.1.2)⟩,
      h.1.2.imp_right fun h => Expr.writable_call h (hs.imp_right fun hs => hs.1.2)⟩,
      hbody h.2 (hs.imp_right fun hs => hs.2)⟩
  | discard => rfl
  | breakLoop => rfl
  | continueLoop => rfl

lemma FuncDef.writable_call {f : FuncDef} (h : f.writable .named = true)
    (hs : f.name = entryPointName ∨ ∀ x ∈ Stmt.exprsOf f.body, x.samplesInput = false) :
    f.writable .call = true := by
  simp only [writable, Bool.and_eq_true, Stmt.allWritable_eq_true] at h ⊢
  refine ⟨h.1, fun s hmem => Stmt.writable_call (h.2 s hmem) ?_⟩
  refine hs.imp (congrArg some) fun hs x hx => hs x ?_
  rw [Stmt.exprsOf_eq_flatMap]
  exact List.mem_flatMap.mpr ⟨s, hmem, hx⟩

end Shaderwright
