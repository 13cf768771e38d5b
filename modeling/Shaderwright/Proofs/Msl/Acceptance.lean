import Mathlib.Tactic.Common
import Shaderwright.Proofs.Emit.Acceptance
import Shaderwright.Proofs.Msl.Helpers
import Shaderwright.Proofs.Msl.Substitution

/-!
Shaders that MSL accepts. A texture is read by a call like any other, and a variable outside the
functions needs a value.
-/

namespace Shaderwright.Msl

variable {names : NameTable} {f : Option String}

lemma callsAccept (names : NameTable) (f : Option String) :
    (exprDialect names).CallsAccept .call f := by
  intro callee args h
  have hcall : (∀ e ∈ args, e.writable .call f = true) ↔
      (Expr.call callee args).writable .call f = true := by
    simp [Expr.writable, Expr.allWritable_eq_true]
  show Emit.Accepts f (call names callee _) _
  unfold call
  split
  · exact .before (.change fun _ => rfl) fun _ => (ExprDialect.accepts_callNamed _ h).congr hcall
  · split
    · refine (Emit.Accepts.write _).before fun _ => .congr (.after (.forM fun e he => ?_)
        fun _ => .write _) hcall
      exact (Emit.Accepts.write _).before fun _ => (h e he).write
    · unfold ExprDialect.callMapped
      split <;> exact (ExprDialect.accepts_callNamed _ h).congr hcall

lemma exprAccepting (names : NameTable) (f : Option String) :
    (exprDialect names).Accepting .call f where
  calls := callsAccept names f
  types := ⟨_, rfl⟩
  qualifiers := ⟨_, _, rfl⟩

lemma stmtAccepting (names : NameTable) (f : String) :
    (stmtDialect names).Accepting .call (some f) where
  toAccepting := exprAccepting names (some f)
  declare v := by
    have hd := exprAccepting names (some f)
    show Emit.Accepts (some f) (declare (exprDialect names) v) _
    unfold declare VarDecl.localWritable
    cases hv : v.var.qualifier with
    | const => exact hd.defineConstant hv
    | param =>
      refine .get fun w hw => ?_
      rw [hw]
      exact (Emit.Accepts.throw _).congr (by simp)
    | _ =>
      refine .get fun w hw => ?_
      rw [hw]
      exact hd.varDecl v

/-! ### Declarations -/

/-- Whether MSL accepts a declaration, a parameter that is declared again aside. -/
def declWritable : Decl → Bool
  | .absent => false
  | .var v =>
    match v.var.qualifier with
    | .const => v.constWritable .call none
    | .param => v.var.type.known
    | _ => !v.init.isAbsent && v.writable .call none
  | .func f => f.writable .call

lemma accepts_paramText (names : NameTable) (p : VarDecl) :
    Emit.Accepts f (paramText (exprDialect names) p) (p.var.type.known = true) := by
  have hd := exprAccepting names f
  refine (hd.typeName _).after fun type => (ExprDialect.accepts_variableName _ _).before
    fun name => ?_
  split
  · exact hd.qualifierOut.before fun _ => .pure _
  · exact .pure _

lemma accepts_declareUniform {v : Variable} (hv : v.type.known = true) :
    Emit.Accepts f (declareUniform (exprDialect names) v) True := by
  have htype : Emit.Accepts f ((exprDialect names).typeName v.type) True :=
    ((exprAccepting names f).typeName v.type).congr (by simp [hv])
  unfold declareUniform
  refine .get fun w _ => ?_
  dsimp only
  split
  · exact .pure _
  · exact htype.before fun _ => .change fun _ => rfl

lemma accepts_define (names : NameTable) (shader : String) (f : FuncDef) :
    Emit.Accepts (some f.name) (define (stmtDialect names) shader f)
      (f.writable .call = true) := by
  have hd := stmtAccepting names f.name
  have hparams : ∀ head handles, Emit.Accepts (some f.name) (do
      let params ← f.params.mapM (paramText (exprDialect names))
      (stmtDialect names).funcWithSignature
        (head ++ Text.joinWith ", " (handles ++ params) ++ ")") f)
      ((∀ p ∈ f.params, p.var.type.known = true) ∧
        Stmt.allWritable .call (some f.name) f.body = true) := fun head handles =>
    (Emit.Accepts.mapM (accepts_paramText names) f.params).bind fun _ => hd.funcWithSignature _ f
  unfold define FuncDef.writable
  split
  · unfold defineEntry
    split
    · rename_i why hwhy
      exact (Emit.Accepts.throw _).congr (by simp [hwhy])
    · rename_i hnone
      refine .congr (.before (ExprDialect.accepts_variableName _ _) fun _ =>
        .before (.change fun _ => rfl) fun _ => hd.funcWithSignature _ f) ?_
      simp [hnone]
  · simp only [Bool.and_eq_true, List.all_eq_true, and_assoc]
    refine .bind (hd.typeName _) fun type => ?_
    split
    · exact .before (.change fun _ => rfl) fun _ => hparams _ _
    · exact hparams _ _

/-- Parameters aside, a declaration is accepted exactly if it is writable. -/
lemma accepts_decl_iff (names : NameTable) (shader : String) {x : Decl} (hx : x.param? = none) :
    Emit.Accepts none ((dialect names shader).decl x) (declWritable x = true) := by
  cases x with
  | absent => exact (Emit.Accepts.throw _).congr (by simp [declWritable])
  | func f => exact Dialect.accepts_func (accepts_define names shader f)
  | var v =>
    have hd := exprAccepting names none
    show Emit.Accepts none (declare (exprDialect names) v) _
    unfold declare declWritable
    dsimp only
    cases hv : v.var.qualifier with
    | const => exact hd.defineConstant hv
    | param => simp [Decl.param?, hv] at hx
    | _ =>
      refine .get fun w hw => ?_
      rw [hw]
      dsimp only
      have hrest := (hd.varDeclText v).after fun text =>
        Emit.Accepts.writeLine (σ := State) ("constant " ++ text ++ ";")
      split
      · rename_i habsent
        exact ((Emit.Accepts.throw _).bind fun _ => hrest).congr (by simp [habsent])
      · rename_i habsent
        exact hrest.congr (by simp [habsent])

lemma accepts_decl (names : NameTable) (shader : String) {x : Decl}
    (h : declWritable x = true) : Emit.Accepts none ((dialect names shader).decl x) True := by
  rcases hx : x.param? with _ | p
  · exact (accepts_decl_iff names shader hx).congr (by simp [h])
  · obtain ⟨v, rfl, hv, -⟩ := Decl.param?_eq_some hx
    have hknown : v.var.type.known = true := by simpa [declWritable, hv] using h
    show Emit.Accepts none (declare (exprDialect names) v) True
    unfold declare
    rw [hv]
    refine .get fun w hw => ?_
    rw [hw]
    exact accepts_declareUniform hknown

lemma declWritable_of_exec {s : Shader} {w : Writer State}
    (h : ((dialect functions s.name).decls s.decls).exec { own := {} } = (.ok (), w)) {x : Decl}
    (hx : x ∈ s.decls) (hparam : x.param? = none) : declWritable x = true := by
  obtain ⟨u, u', hu, hexec⟩ :=
    (tame_dialect functions s.name).exists_exec_decl ⟨rfl, rfl, rfl⟩ h hx
  exact ((accepts_decl_iff functions s.name hparam).iff u hu.function).mp ⟨(), u', hexec⟩

/-- The helpers of a shader are renamed if and only if they can be searched, provided that its
functions have names that can be found again in the text. -/
lemma isSome_rename {s : Shader} {w : Writer State}
    (hw : ((dialect functions s.name).decls s.decls).exec { own := {} } = (.ok (), w))
    (hwords : ∀ g, .func g ∈ s.decls → IsWord g.name.toList) :
    (rename s.name w.own.helpers w.own.samples w.out).isSome = searchable (helperNames s) := by
  have hhelpers : ∀ n ∈ w.own.helpers, IsWord n.toList := by
    intro n hn
    rw [helpers_of_exec hw] at hn
    obtain ⟨g, hg, rfl, -⟩ := mem_helperNames.mp hn
    exact hwords g hg
  rw [rename, Option.isSome_map, renameHelpers_eq hhelpers, helpers_of_exec hw]
  cases searchable (helperNames s) <;> rfl

/-- MSL translates a shader that has a name and whose declarations are writable, as long as its
helpers can be searched; and if they cannot, that is the reason why not. -/
lemma translate_eq {s : Shader} (hname : s.name ≠ "")
    (hdecls : ∀ x ∈ s.decls, declWritable x = true)
    (hwords : ∀ g, .func g ∈ s.decls → IsWord g.name.toList) (common : String) :
    (searchable (helperNames s) = true ∧ ∃ result, translate common (some s) = .ok result) ∨
      (searchable (helperNames s) = false ∧ translate common (some s) = .error .unrenamable) := by
  have hexec := (Dialect.accepts_decls fun x hx => accepts_decl functions s.name (hdecls x hx)).iff
    { own := {} } rfl
  obtain ⟨_, w, hw⟩ := hexec.mpr fun _ _ => trivial
  have hrename := isSome_rename hw hwords
  rcases hbody : rename s.name w.own.helpers w.own.samples w.out with _ | body
  · refine .inr ⟨by rw [← hrename, hbody]; rfl, ?_⟩
    simp only [translate, if_neg hname, hw, hbody]
  · refine .inl ⟨by rw [← hrename, hbody]; rfl, ?_⟩
    simp only [translate, if_neg hname, hw, hbody]
    exact ⟨_, rfl⟩

lemma exists_translate {s : Shader} (hname : s.name ≠ "")
    (hdecls : ∀ x ∈ s.decls, declWritable x = true)
    (hwords : ∀ g, .func g ∈ s.decls → IsWord g.name.toList)
    (hsearch : searchable (helperNames s) = true) (common : String) :
    ∃ result, translate common (some s) = .ok result := by
  rcases translate_eq hname hdecls hwords common with ⟨-, hok⟩ | ⟨hnot, -⟩
  · exact hok
  · rw [hsearch] at hnot
    cases hnot

end Shaderwright.Msl
