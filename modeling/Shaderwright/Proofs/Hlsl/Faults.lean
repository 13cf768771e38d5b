import Mathlib.Tactic.Common
import Shaderwright.Hlsl.Compile
import Shaderwright.Proofs.Emit.Faults

/-!
What HLSL objects to in a complete shader. Its refusals are of all three kinds.
-/

namespace Shaderwright.Hlsl

section Dialect

variable {P : Fault → Prop}

lemma faultsIn_narrowed {arg : Operand State} (h : arg.FaultsIn P) (param : ShaderType) :
    Emit.FaultsIn P (narrowed arg param) := by
  unfold narrowed
  dsimp only
  split
  · exact .bind (.write _) fun _ => .bind h.write fun _ => .bind (.write _) fun _ => .write _
  · exact .bind h.write fun _ => .write _

lemma faultsIn_paintArgs {args : List (Operand State)} (h : ∀ o ∈ args, o.FaultsIn P)
    (params : List ShaderType) : ∀ step ∈ paintArgs args params, Emit.FaultsIn P step := by
  induction args generalizing params with
  | nil => simp [paintArgs]
  | cons arg args ih =>
    have harg := h arg List.mem_cons_self
    have hrest := ih fun o ho => h o (List.mem_cons_of_mem _ ho)
    cases params with
    | nil => exact List.forall_mem_cons.mpr ⟨harg.write, hrest []⟩
    | cons param params =>
      exact List.forall_mem_cons.mpr ⟨faultsIn_narrowed harg param, hrest params⟩

variable (hrefused : ∀ why, P (.refused why)) (hinput : ∀ name, P (.inputScope name))
include hrefused

lemma faultsIn_callSample {args : List (Operand State)} (h : ∀ o ∈ args, o.FaultsIn P) :
    Emit.FaultsIn P (callSample args) := by
  unfold callSample
  split
  · rename_i texture uv
    have hread : ∀ names : String × String, Emit.FaultsIn P (do
        Emit.write (names.1 ++ ".Sample(" ++ names.2 ++ ", ")
        uv.write
        Emit.write ")") := fun names =>
      .bind (.write _) fun _ => .bind (h uv (by simp)).write fun _ => .write _
    dsimp only
    split
    · exact .bind (.pure _) hread
    · rename_i name index helement _
      have hindex := (h texture (by simp)).element name index helement
      exact .bind hindex.captured fun _ => .bind (.pure _) hread
    · exact .throw_bind (hrefused _) _
  · exact .throw (hrefused _)

include hinput

lemma exprFaultsIn (paint : Paint) : (exprDialect paint).FaultsIn P where
  inputScope := hinput
  constantWithoutValue name := hrefused _
  types := ⟨_, rfl⟩
  qualifiers := ⟨_, _, rfl⟩
  call callee args h := by
    show Emit.FaultsIn P (call paint callee args)
    unfold call
    split
    · exact faultsIn_callSample hrefused h
    · split
      · exact .bind (.write _) fun _ => .bind (.separated ", " (faultsIn_paintArgs h _)) fun _ =>
          .write _
      · exact ExprDialect.faultsIn_callMapped _ _ h

lemma faultsIn_declare (paint : Paint) {v : VarDecl} (h : v.Complete) :
    Emit.FaultsIn P (declare (exprDialect paint) v) := by
  have hd := exprFaultsIn hrefused hinput paint
  have hname := (exprDialect paint).faultsIn_variableName (P := P) v.var.name
  unfold declare
  split
  · exact hd.defineConstant h
  · refine .bind .get fun w => ?_
    split
    · exact .throw (hrefused _)
    · split
      · exact .bind (hd.typeName h.type) fun _ => .bind hname fun _ => .bind (.writeLine _)
          fun _ => .bind (.writeLine _) fun _ => .change _
      · unfold declareUniform
        split
        · exact .throw (hrefused _)
        · exact .bind (hd.typeName h.type) fun _ => .bind (hd.qualifier h.qualifier) fun _ =>
            .bind hname fun _ => .bind (.writeLine _) fun _ => .change _
  · refine .bind .get fun w => ?_
    split
    · exact .bind (hd.varDeclText h) fun _ => .writeLine _
    · exact hd.varDecl h

lemma faultsIn_define (paint : Paint) {f : FuncDef} (h : f.Complete)
    (hstarts : StartsIn P (Stmt.loopStartsOf f.body)) :
    Emit.FaultsIn P (define (stmtDialect paint) f) := by
  have hd : (stmtDialect paint).FaultsIn P :=
    { exprFaultsIn hrefused hinput paint with
      declare := fun v hv => faultsIn_declare hrefused hinput paint hv }
  unfold define
  split
  · exact hd.funcDef h hstarts
  · split
    · exact .throw (hrefused _)
    · exact .bind (ExprDialect.faultsIn_variableName _ _) fun _ => .bind (.change _) fun _ =>
        hd.funcWithSignature _ h hstarts

end Dialect

lemma refuses (paint : Paint) : (dialect paint).Refuses [.declaration, .entryPoint, .call] := by
  intro P hkinds hinput
  have hrefused : ∀ why : Refusal, P (.refused why) := fun why =>
    hkinds why (by cases why.kind <;> decide)
  exact ⟨fun v hv => faultsIn_declare hrefused hinput paint hv,
    fun f hf hstarts => faultsIn_define hrefused hinput paint hf hstarts⟩

/-- The translation of a complete shader fails for a reason that HLSL has a kind for, or at the
start of a loop. -/
lemma typed_of_translate {o : Options} {s : Shader} {f : Fault} (hs : ∀ x ∈ s.decls, x.Complete)
    (h : translate o (some s) = .error f) :
    f.Typed [.declaration, .entryPoint, .call] s.loopStarts := by
  simp only [translate] at h
  split_ifs at h
  · cases h
    exact .inl ⟨.unnamedShader, rfl, by decide⟩
  · split at h
    · cases h
    · rename_i e v hexec
      cases h
      have hdecls : ((dialect (o.paint s)).decls s.decls).exec
        { out := headerLine s.name, own := [] } = (.error e, v) := hexec
      exact (refuses _).typed (by decide) hs hdecls

end Shaderwright.Hlsl
