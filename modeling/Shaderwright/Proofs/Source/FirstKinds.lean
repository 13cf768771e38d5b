import Shaderwright.Proofs.Source.Outline

/-!
Which entries of a shader file are read. A statement or an expression that sets several kinds is
taken for the first of them, and what stands under the others leaves no trace: neither in the tree
nor in a complaint.
-/

namespace Shaderwright.Source

/-! ### Only the first kinds are read -/

mutual

lemma expr_pruned (scope : Scope) : ∀ form : ExprForm, expr scope form.pruned = expr scope form
  | .scalar s => by rw [ExprForm.pruned]
  | .list shown => by rw [ExprForm.pruned]
  | .kinds [] => by rw [ExprForm.pruned]
  | .kinds (k :: ks) => by rw [ExprForm.pruned, expr, expr, exprKind_pruned scope k]

lemma exprKind_pruned (scope : Scope) : ∀ kind : ExprKind,
    exprKind scope kind.pruned = exprKind scope kind
  | .lit text => by rw [ExprKind.pruned]
  | .call callee as => by
    rw [ExprKind.pruned, exprKind, exprKind, args_pruned scope callee 0 as]
  | .binary op x y => by
    rw [ExprKind.pruned, exprKind, exprKind, operand_pruned scope x, operand_pruned scope y]
  | .unary op x => by rw [ExprKind.pruned, exprKind, exprKind, operand_pruned scope x]
  | .assign op lhs rhs => by
    rw [ExprKind.pruned, exprKind, exprKind, operand_pruned scope lhs, operand_pruned scope rhs]
  | .member x field => by rw [ExprKind.pruned, exprKind, exprKind, operand_pruned scope x]
  | .index x i => by
    rw [ExprKind.pruned, exprKind, exprKind, operand_pruned scope x, operand_pruned scope i]

lemma operand_pruned (scope : Scope) : ∀ form : Option ExprForm,
    operand scope (ExprForm.prunedPart form) = operand scope form
  | none => by rw [ExprForm.prunedPart]
  | some form => by rw [ExprForm.prunedPart, operand, operand, expr_pruned scope form]

lemma args_pruned (scope : Scope) (callee : String) : ∀ (i : Nat) (forms : List ExprForm),
    args scope callee i (ExprForm.prunedAll forms) = args scope callee i forms
  | i, [] => by rw [ExprForm.prunedAll]
  | i, form :: forms => by
    rw [ExprForm.prunedAll, args, args, expr_pruned scope form,
      args_pruned scope callee (i + 1) forms]

end

lemma optionalExpr_pruned (scope : Scope) (step : Step) (form : Option ExprForm) :
    optionalExpr scope step (ExprForm.prunedPart form) = optionalExpr scope step form := by
  cases form with
  | none => rw [ExprForm.prunedPart]
  | some form => rw [ExprForm.prunedPart, optionalExpr, optionalExpr, expr_pruned]

lemma variableDecl_pruned (c : Context) (f : VarForm) :
    variableDecl c f.pruned = variableDecl c f := by
  have hbody : variableBody c f.pruned = variableBody c f := by
    cases hform : f.init with
    | none => rw [VarForm.pruned, hform, ExprForm.prunedPart, ← hform]
    | some form =>
      simp only [variableBody, VarForm.pruned, hform, ExprForm.prunedPart, expr_pruned]
  rw [variableDecl, variableDecl, hbody]
  rfl

lemma params_pruned (c : Context) (forms : List VarForm) :
    params c (forms.map VarForm.pruned) = params c forms := by
  induction forms generalizing c with
  | nil => rfl
  | cons f forms ih => simp only [List.map_cons, params, variableDecl_pruned, ih]

mutual

lemma stmt_pruned : ∀ (c : Context) (form : StmtForm), stmt c form.pruned = stmt c form
  | c, .word text => by rw [StmtForm.pruned]
  | c, .kinds [] => by rw [StmtForm.pruned]
  | c, .kinds (k :: ks) => by rw [StmtForm.pruned, stmt, stmt, stmtKind_pruned c k]

lemma stmtKind_pruned : ∀ (c : Context) (kind : StmtKind),
    stmtKind c kind.pruned = stmtKind c kind
  | c, .block forms => by rw [StmtKind.pruned, stmtKind, stmtKind, stmts_pruned c 0 forms]
  | c, .var f => by rw [StmtKind.pruned, stmtKind, stmtKind, variableDecl_pruned]
  | c, .expr form => by rw [StmtKind.pruned, stmtKind, stmtKind, expr_pruned]
  | c, .returns form => by rw [StmtKind.pruned, stmtKind, stmtKind, expr_pruned]
  | c, .ifElse none yes no => by rw [StmtKind.pruned, ExprForm.prunedPart, stmtKind, stmtKind]
  | c, .ifElse (some cond) yes no => by
    rw [StmtKind.pruned, ExprForm.prunedPart, stmtKind, stmtKind, expr_pruned,
      stmts_pruned c 0 yes]
    simp only [fun d => elseBranch_pruned d no]
  | c, .loop init cond post body => by
    rw [StmtKind.pruned, stmtKind, stmtKind, loopInit_pruned c init]
    simp only [optionalExpr_pruned, fun d => stmts_pruned d 0 body]

lemma elseBranch_pruned : ∀ (c : Context) (forms : Option (List StmtForm)),
    elseBranch c (StmtForm.prunedBranch forms) = elseBranch c forms
  | c, none => by rw [StmtForm.prunedBranch]
  | c, some forms => by
    rw [StmtForm.prunedBranch, elseBranch, elseBranch, stmts_pruned c 0 forms]

lemma loopInit_pruned : ∀ (c : Context) (form : Option StmtForm),
    loopInit c (StmtForm.prunedPart form) = loopInit c form
  | c, none => by rw [StmtForm.prunedPart]
  | c, some form => by rw [StmtForm.prunedPart, loopInit, loopInit, stmt_pruned c form]

lemma stmts_pruned : ∀ (c : Context) (i : Nat) (forms : List StmtForm),
    stmts c i (StmtForm.prunedAll forms) = stmts c i forms
  | c, i, [] => by rw [StmtForm.prunedAll]
  | c, i, form :: forms => by
    rw [StmtForm.prunedAll, stmts, stmts, stmt_pruned c form]
    simp only [fun d => stmts_pruned d (i + 1) forms]

end

lemma decl_pruned (c : Context) (d : DeclForm) : decl c d.pruned = decl c d := by
  obtain ⟨_ | v, _ | f⟩ := d
  · rfl
  · have hfunction : function c f.pruned = function c f := by
      simp only [function, FuncForm.pruned, params_pruned, stmts_pruned]
    simp only [decl, DeclForm.pruned, Option.map_none, Option.map_some, hfunction]
  · simp only [decl, DeclForm.pruned, Option.map_none, Option.map_some, variableDecl_pruned]
  · rfl

lemma decls_pruned (c : Context) (i : Nat) (ds : List DeclForm) :
    decls c i (ds.map DeclForm.pruned) = decls c i ds := by
  induction ds generalizing c i with
  | nil => rfl
  | cons d ds ih => simp only [List.map_cons, decls, decl_pruned, ih]

/-- A file says to the reader what it says without the entries that are ignored. -/
lemma shader_pruned (f : ShaderForm) : shader f.pruned = shader f := by
  simp only [shader, ShaderForm.pruned, decls_pruned]

/-! ### What the other kinds add -/

/-- The first outline is no longer than the second one, and as long only in the given case. -/
structure Shortens (short long : List Mark) (same : Prop) : Prop where
  le : short.length ≤ long.length
  same : short.length = long.length → same

namespace Shortens

variable {s l s' l' : List Mark} {p q : Prop}

lemma of_true (ms : List Mark) (hp : p) : Shortens ms ms p := ⟨Nat.le_refl _, fun _ => hp⟩

lemma imp (h : Shortens s l p) (hpq : p → q) : Shortens s l q :=
  ⟨h.le, fun hl => hpq (h.same hl)⟩

lemma cons {m n : Mark} (h : Shortens s l p) : Shortens (m :: s) (n :: l) p :=
  ⟨Nat.succ_le_succ h.le, fun hl => h.same (Nat.succ.inj hl)⟩

lemma append (h : Shortens s l p) (h' : Shortens s' l' q) :
    Shortens (s ++ s') (l ++ l') (p ∧ q) := by
  have hle := h.le
  have hle' := h'.le
  refine ⟨by simp only [List.length_append]; omega, fun hl => ?_⟩
  simp only [List.length_append] at hl
  exact ⟨h.same (by omega), h'.same (by omega)⟩

lemma flatMap {α : Type} {outline : α → List Mark} {prune : α → α}
    (h : ∀ x, Shortens (outline (prune x)) (outline x) (prune x = x)) (xs : List α) :
    Shortens ((xs.map prune).flatMap outline) (xs.flatMap outline) (xs.map prune = xs) := by
  induction xs with
  | nil => exact of_true [] rfl
  | cons x xs ih => exact ((h x).append ih).imp fun ⟨hx, hxs⟩ => by rw [List.map_cons, hx, hxs]

end Shortens

/-- Every kind that is set has an entry of its own in the outline. -/
lemma ExprForm.shortens_nil (ks : List ExprKind) :
    Shortens [] (ExprForm.outlineOfKinds ks) (ks = []) := by
  refine ⟨Nat.zero_le _, fun h => ?_⟩
  cases ks with
  | nil => rfl
  | cons k ks => cases k <;> simp [ExprForm.outlineOfKinds, ExprKind.outline] at h

lemma StmtForm.shortens_nil (ks : List StmtKind) :
    Shortens [] (StmtForm.outlineOfKinds ks) (ks = []) := by
  refine ⟨Nat.zero_le _, fun h => ?_⟩
  cases ks with
  | nil => rfl
  | cons k ks => cases k <;> simp [StmtForm.outlineOfKinds, StmtKind.outline] at h

mutual

lemma ExprForm.shortens : ∀ form : ExprForm,
    Shortens form.pruned.outline form.outline (form.pruned = form)
  | .scalar s => by rw [ExprForm.pruned]; exact .of_true _ rfl
  | .list shown => by rw [ExprForm.pruned]; exact .of_true _ rfl
  | .kinds [] => by rw [ExprForm.pruned]; exact .of_true _ rfl
  | .kinds (k :: ks) => by
    rw [ExprForm.pruned, ExprForm.outline, ExprForm.outline, ExprForm.outlineOfKinds,
      ExprForm.outlineOfKinds, ExprForm.outlineOfKinds]
    exact (k.shortens.append (ExprForm.shortens_nil ks)).imp fun ⟨hk, hks⟩ => by rw [hk, hks]

lemma ExprKind.shortens : ∀ kind : ExprKind,
    Shortens kind.pruned.outline kind.outline (kind.pruned = kind)
  | .lit text => by rw [ExprKind.pruned]; exact .of_true _ rfl
  | .call callee as => by
    rw [ExprKind.pruned, ExprKind.outline, ExprKind.outline]
    exact (ExprForm.shortens_all as).cons.imp fun has => by rw [has]
  | .binary op x y => by
    rw [ExprKind.pruned, ExprKind.outline, ExprKind.outline]
    exact ((ExprForm.shortens_part x).append (ExprForm.shortens_part y)).cons.imp
      fun ⟨hx, hy⟩ => by rw [hx, hy]
  | .unary op x => by
    rw [ExprKind.pruned, ExprKind.outline, ExprKind.outline]
    exact (ExprForm.shortens_part x).cons.imp fun hx => by rw [hx]
  | .assign op lhs rhs => by
    rw [ExprKind.pruned, ExprKind.outline, ExprKind.outline]
    exact ((ExprForm.shortens_part lhs).append (ExprForm.shortens_part rhs)).cons.imp
      fun ⟨hl, hr⟩ => by rw [hl, hr]
  | .member x field => by
    rw [ExprKind.pruned, ExprKind.outline, ExprKind.outline]
    exact (ExprForm.shortens_part x).cons.imp fun hx => by rw [hx]
  | .index x i => by
    rw [ExprKind.pruned, ExprKind.outline, ExprKind.outline]
    exact ((ExprForm.shortens_part x).append (ExprForm.shortens_part i)).cons.imp
      fun ⟨hx, hi⟩ => by rw [hx, hi]

lemma ExprForm.shortens_part : ∀ form : Option ExprForm,
    Shortens (ExprForm.outlineOfPart (ExprForm.prunedPart form)) (ExprForm.outlineOfPart form)
      (ExprForm.prunedPart form = form)
  | none => by rw [ExprForm.prunedPart]; exact .of_true _ rfl
  | some form => by
    rw [ExprForm.prunedPart, ExprForm.outlineOfPart, ExprForm.outlineOfPart]
    exact form.shortens.imp fun h => by rw [h]

lemma ExprForm.shortens_all : ∀ forms : List ExprForm,
    Shortens (ExprForm.outlineOf (ExprForm.prunedAll forms)) (ExprForm.outlineOf forms)
      (ExprForm.prunedAll forms = forms)
  | [] => by rw [ExprForm.prunedAll]; exact .of_true _ rfl
  | form :: forms => by
    rw [ExprForm.prunedAll, ExprForm.outlineOf, ExprForm.outlineOf]
    exact (form.shortens.append (ExprForm.shortens_all forms)).imp
      fun ⟨hform, hforms⟩ => by rw [hform, hforms]

end

lemma VarForm.shortens (f : VarForm) :
    Shortens f.pruned.outline f.outline (f.pruned = f) :=
  (ExprForm.shortens_part f.init).cons.imp fun h => by rw [VarForm.pruned, h]

mutual

lemma StmtForm.shortens : ∀ form : StmtForm,
    Shortens form.pruned.outline form.outline (form.pruned = form)
  | .word text => by rw [StmtForm.pruned]; exact .of_true _ rfl
  | .kinds [] => by rw [StmtForm.pruned]; exact .of_true _ rfl
  | .kinds (k :: ks) => by
    rw [StmtForm.pruned, StmtForm.outline, StmtForm.outline, StmtForm.outlineOfKinds,
      StmtForm.outlineOfKinds, StmtForm.outlineOfKinds]
    exact (k.shortens.append (StmtForm.shortens_nil ks)).imp fun ⟨hk, hks⟩ => by rw [hk, hks]

lemma StmtKind.shortens : ∀ kind : StmtKind,
    Shortens kind.pruned.outline kind.outline (kind.pruned = kind)
  | .block forms => by
    rw [StmtKind.pruned, StmtKind.outline, StmtKind.outline]
    exact (StmtForm.shortens_all forms).cons.imp fun h => by rw [h]
  | .var f => by
    rw [StmtKind.pruned, StmtKind.outline, StmtKind.outline]
    exact f.shortens.cons.imp fun h => by rw [h]
  | .expr form => by
    rw [StmtKind.pruned, StmtKind.outline, StmtKind.outline]
    exact form.shortens.cons.imp fun h => by rw [h]
  | .returns form => by
    rw [StmtKind.pruned, StmtKind.outline, StmtKind.outline]
    exact form.shortens.cons.imp fun h => by rw [h]
  | .ifElse cond yes no => by
    rw [StmtKind.pruned, StmtKind.outline, StmtKind.outline]
    exact ((ExprForm.shortens_part cond).append
      ((StmtForm.shortens_all yes).cons.append (StmtForm.shortens_branch no))).cons.imp
        fun ⟨hcond, hyes, hno⟩ => by rw [hcond, hyes, hno]
  | .loop init cond post body => by
    rw [StmtKind.pruned, StmtKind.outline, StmtKind.outline]
    exact ((StmtForm.shortens_part init).append ((ExprForm.shortens_part cond).append
      ((ExprForm.shortens_part post).append (StmtForm.shortens_all body).cons))).cons.imp
        fun ⟨hinit, hcond, hpost, hbody⟩ => by rw [hinit, hcond, hpost, hbody]

lemma StmtForm.shortens_branch : ∀ forms : Option (List StmtForm),
    Shortens (StmtForm.outlineOfBranch (StmtForm.prunedBranch forms))
      (StmtForm.outlineOfBranch forms) (StmtForm.prunedBranch forms = forms)
  | none => by rw [StmtForm.prunedBranch]; exact .of_true _ rfl
  | some forms => by
    rw [StmtForm.prunedBranch, StmtForm.outlineOfBranch, StmtForm.outlineOfBranch]
    exact (StmtForm.shortens_all forms).cons.imp fun h => by rw [h]

lemma StmtForm.shortens_part : ∀ form : Option StmtForm,
    Shortens (StmtForm.outlineOfPart (StmtForm.prunedPart form)) (StmtForm.outlineOfPart form)
      (StmtForm.prunedPart form = form)
  | none => by rw [StmtForm.prunedPart]; exact .of_true _ rfl
  | some form => by
    rw [StmtForm.prunedPart, StmtForm.outlineOfPart, StmtForm.outlineOfPart]
    exact form.shortens.imp fun h => by rw [h]

lemma StmtForm.shortens_all : ∀ forms : List StmtForm,
    Shortens (StmtForm.outlineOf (StmtForm.prunedAll forms)) (StmtForm.outlineOf forms)
      (StmtForm.prunedAll forms = forms)
  | [] => by rw [StmtForm.prunedAll]; exact .of_true _ rfl
  | form :: forms => by
    rw [StmtForm.prunedAll, StmtForm.outlineOf, StmtForm.outlineOf]
    exact (form.shortens.append (StmtForm.shortens_all forms)).imp
      fun ⟨hform, hforms⟩ => by rw [hform, hforms]

end

lemma FuncForm.shortens (f : FuncForm) :
    Shortens f.pruned.outline f.outline (f.pruned = f) :=
  ((Shortens.flatMap VarForm.shortens f.params).append
    (StmtForm.shortens_all f.body)).cons.imp
      fun ⟨hparams, hbody⟩ => by rw [FuncForm.pruned, hparams, hbody]

lemma DeclForm.shortens (d : DeclForm) :
    Shortens d.pruned.outline d.outline (d.pruned = d) := by
  obtain ⟨var, func⟩ := d
  have hvar : Shortens ((var.map VarForm.pruned).elim [] VarForm.outline)
      (var.elim [] VarForm.outline) (var.map VarForm.pruned = var) := by
    cases var with
    | none => exact .of_true _ rfl
    | some v => exact v.shortens.imp fun h => by rw [Option.map_some, h]
  have hfunc : Shortens ((func.map FuncForm.pruned).elim [] FuncForm.outline)
      (func.elim [] FuncForm.outline) (func.map FuncForm.pruned = func) := by
    cases func with
    | none => exact .of_true _ rfl
    | some f => exact f.shortens.imp fun h => by rw [Option.map_some, h]
  exact (hvar.append hfunc).imp fun ⟨hvar, hfunc⟩ => by simp only [DeclForm.pruned, hvar, hfunc]

lemma ShaderForm.shortens (f : ShaderForm) :
    Shortens f.pruned.outline f.outline (f.pruned = f) :=
  (Shortens.flatMap DeclForm.shortens f.decls).cons.imp
    fun h => by rw [ShaderForm.pruned, h]

/-- A file is accepted exactly if it is when every statement and every expression of it keeps only
its first kind, and with the same result. The tree of an accepted file says what these first kinds
say; it tells the whole file exactly if no statement and no expression sets another one. -/
theorem first_kinds_read (f : ShaderForm) :
    shader f.pruned = shader f ∧
      ∀ s, shader f = .ok s →
        s.outline = f.pruned.outline ∧ (s.outline = f.outline ↔ f.pruned = f) := by
  refine ⟨shader_pruned f, fun s hs => ?_⟩
  have houtline : s.outline = f.pruned.outline := outline_shader hs
  refine ⟨houtline, fun h => f.shortens.same (by rw [← houtline, h]), fun h => ?_⟩
  rw [houtline, h]

/-- Every node of this file sets one kind. -/
def dithered : ShaderForm where
  name := "Dithered"
  decls := [
    { var := some { name := "cut", type := "float", qualifier := "param" } },
    { func := some {
        name := "main"
        returns := "void"
        body := [
          .kinds [.ifElse
            (some (.kinds [.binary "<" (some (.scalar (.string "cut")))
              (some (.kinds [.lit "0.5"]))]))
            [.word "discard"] none],
          .kinds [.expr (.kinds [.assign "" (some (.scalar (.string "color")))
            (some (.scalar (.string "cut")))])]] } }]

/-- So nothing that it says is lost. -/
theorem first_kinds_read_dithered :
    ∃ s, shader dithered = .ok s ∧ dithered.pruned = dithered ∧ s.outline = dithered.outline :=
  ⟨_, rfl, rfl, ((first_kinds_read dithered).2 _ rfl).2.mpr rfl⟩

/-- A statement with two kinds, the first of which is an expression with two kinds. -/
def torn : ShaderForm where
  name := "Torn"
  decls := [{ func := some {
    name := "main"
    returns := "float"
    body := [.kinds [
      .expr (.kinds [.lit "1.0", .call "noise" []]),
      .returns (.scalar (.string "shade"))]] } }]

/-- It is accepted, and what is left of it is the literal: the call and the return are gone. -/
theorem second_kinds_lost_torn :
    shader torn = .ok ⟨"Torn", [.func ⟨"main", .float, [], [.expr (.literal "1.0" .float)]⟩]⟩ ∧
      torn.pruned ≠ torn := by
  refine ⟨rfl, fun h => ?_⟩
  have hlength : torn.pruned.outline.length = torn.outline.length := by rw [h]
  exact absurd hlength (by decide)

end Shaderwright.Source
