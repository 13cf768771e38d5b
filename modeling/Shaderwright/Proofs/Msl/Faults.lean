import Mathlib.Tactic.Common
import Shaderwright.Msl.Compile
import Shaderwright.Proofs.Emit.Faults
import Shaderwright.Proofs.Msl.Acceptance

/-!
What MSL objects to in a complete shader. It writes every call whose arguments it writes, so that
its refusals are of two kinds; and the helpers of a shader can be renamed unless one of them is
not a word.
-/

namespace Shaderwright.Msl

section Dialect

variable {P : Fault → Prop} {names : NameTable}

lemma faultsIn_call (names : NameTable) (callee : String) {args : List (Operand State)}
    (h : ∀ o ∈ args, o.FaultsIn P) : Emit.FaultsIn P (call names callee args) := by
  unfold call
  split
  · exact .bind (.change _) fun _ => ExprDialect.faultsIn_callNamed _ h
  · split
    · refine .bind (.write _) fun _ => .bind (.forM fun o ho => ?_) fun _ => .write _
      exact .bind (.write _) fun _ => (h o ho).write
    · exact ExprDialect.faultsIn_callMapped _ _ h

variable (hrefused : ∀ why : Refusal, why.kind ≠ .call → P (.refused why))
  (hinput : ∀ name, P (.inputScope name))
include hrefused hinput

lemma exprFaultsIn (names : NameTable) : (exprDialect names).FaultsIn P where
  inputScope := hinput
  constantWithoutValue name := hrefused _ (by simp [Refusal.kind])
  types := ⟨_, rfl⟩
  qualifiers := ⟨_, _, rfl⟩
  call callee args h := faultsIn_call names callee h

lemma faultsIn_declare (names : NameTable) {v : VarDecl} (h : v.Complete) :
    Emit.FaultsIn P (declare (exprDialect names) v) := by
  have hd := exprFaultsIn hrefused hinput names
  unfold declare
  split
  · exact hd.defineConstant h
  · refine .bind .get fun w => ?_
    split
    · exact .throw (hrefused _ (by simp [Refusal.kind]))
    · unfold declareUniform
      refine .bind .get fun w => ?_
      dsimp only
      split
      · exact .pure _
      · exact .bind (hd.typeName h.type) fun _ => .change _
  · refine .bind .get fun w => ?_
    split
    · exact hd.varDecl h
    · dsimp only
      split
      · exact .throw_bind (hrefused _ (by simp [Refusal.kind])) _
      · exact .bind (hd.varDeclText h) fun _ => .writeLine _

lemma faultsIn_paramText (names : NameTable) {p : VarDecl} (h : p.Complete) :
    Emit.FaultsIn P (paramText (exprDialect names) p) := by
  have hd := exprFaultsIn hrefused hinput names
  refine .bind (hd.typeName h.type) fun type => .bind (ExprDialect.faultsIn_variableName _ _)
    fun name => ?_
  split
  · exact .bind hd.qualifierOut fun _ => .pure _
  · exact .pure _

lemma faultsIn_define (names : NameTable) (shader : String) {f : FuncDef} (h : f.Complete)
    (hstarts : StartsIn P (Stmt.loopStartsOf f.body)) :
    Emit.FaultsIn P (define (stmtDialect names) shader f) := by
  have hd : (stmtDialect names).FaultsIn P :=
    { exprFaultsIn hrefused hinput names with
      declare := fun v hv => faultsIn_declare hrefused hinput names hv }
  have hparams : ∀ head handles, Emit.FaultsIn P (do
      let params ← f.params.mapM (paramText (exprDialect names))
      (stmtDialect names).funcWithSignature
        (head ++ Text.joinWith ", " (handles ++ params) ++ ")") f) := fun head handles =>
    .bind (.mapM fun p hp => faultsIn_paramText hrefused hinput names (h.params p hp)) fun _ =>
      hd.funcWithSignature _ h hstarts
  unfold define
  split
  · unfold defineEntry
    split
    · exact .throw (hrefused _ (by simp [Refusal.kind]))
    · exact .bind (ExprDialect.faultsIn_variableName _ _) fun _ => .bind (.change _) fun _ =>
        hd.funcWithSignature _ h hstarts
  · refine .bind (hd.typeName h.returns) fun type => ?_
    dsimp only
    split
    · exact .bind (.change _) fun _ => hparams _ _
    · exact hparams _ _

end Dialect

lemma refuses (names : NameTable) (shader : String) :
    (dialect names shader).Refuses [.declaration, .entryPoint] := by
  intro P hkinds hinput
  have hrefused : ∀ why : Refusal, why.kind ≠ .call → P (.refused why) := by
    intro why hwhy
    refine hkinds why ?_
    cases hkind : why.kind <;> simp_all
  exact ⟨fun v hv => faultsIn_declare hrefused hinput names hv,
    fun f hf hstarts => faultsIn_define hrefused hinput names shader hf hstarts⟩

/-- The translation of a complete shader fails for a reason that MSL has a kind for, at the start
of a loop, or because its helpers cannot be searched or one of them has a name that is not a
word. -/
lemma typed_of_translate {common : String} {s : Shader} {e : Failure}
    (hs : ∀ x ∈ s.decls, x.Complete) (h : translate common (some s) = .error e) :
    (e = .unrenamable ∧ (searchable (helperNames s) = false ∨
        ∃ g, .func g ∈ s.decls ∧ ¬ IsWord g.name.toList)) ∨
      ∃ f, e = .fault f ∧ f.Typed [.declaration, .entryPoint] s.loopStarts := by
  simp only [translate] at h
  split_ifs at h
  · cases h
    exact .inr ⟨_, rfl, .inl ⟨.unnamedShader, rfl, by decide⟩⟩
  · split at h
    · rename_i f v hexec
      cases h
      exact .inr ⟨_, rfl, (refuses _ _).typed (by decide) hs hexec⟩
    · rename_i w hexec
      split at h
      · rename_i hnone
        cases h
        by_cases hwords : ∀ g, .func g ∈ s.decls → IsWord g.name.toList
        · have hsome := isSome_rename hexec hwords
          rw [hnone] at hsome
          exact .inl ⟨rfl, .inl hsome.symm⟩
        · exact .inl ⟨rfl, .inr (by simpa using hwords)⟩
      · cases h

end Shaderwright.Msl
