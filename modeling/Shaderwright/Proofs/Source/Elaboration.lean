import Mathlib.Tactic.Common
import Shaderwright.Proofs.Shader.Parts
import Shaderwright.Source.Resolve

/-!
The rules that the resolution of names follows, without the forms that it starts from: which
expressions, statements and declarations can come out of it in a context, and the context that
they leave behind. What holds of every resolved shader is proved by induction over these rules.
-/

namespace Shaderwright.Source

section Results

variable {α β : Type}

lemma Resolve.within_eq_ok {step : Step} {r : Resolve α} {a : α} :
    Resolve.within step r = .ok a ↔ r = .ok a := by
  cases r <;> simp [Resolve.within, Except.mapError]

lemma Resolve.bind_eq_ok {r : Resolve α} {k : α → Resolve β} {b : β} :
    (r >>= k) = .ok b ↔ ∃ a, r = .ok a ∧ k a = .ok b := by
  cases r <;> simp [bind, Except.bind]

end Results

/-! ### Expressions -/

/-- Nothing is missing in the expression, and every identifier stands for what its name means in
the scope. -/
inductive Bound (scope : Scope) : Expr → Prop
  | ident (name : String) : Bound scope (.ident name (scope.ref name))
  | literal (text : String) (kind : LiteralKind) : Bound scope (.literal text kind)
  | call {callee : String} {args : List Expr} :
    (∀ arg ∈ args, Bound scope arg) → Bound scope (.call callee args)
  | binary {op : String} {x y : Expr} :
    Bound scope x → Bound scope y → Bound scope (.binary op x y)
  | unary {op : String} {x : Expr} : Bound scope x → Bound scope (.unary op x)
  | assign {op : String} {lhs rhs : Expr} :
    Bound scope lhs → Bound scope rhs → Bound scope (.assign op lhs rhs)
  | member {x : Expr} {field : String} : Bound scope x → Bound scope (.member x field)
  | index {x i : Expr} : Bound scope x → Bound scope i → Bound scope (.index x i)

def BoundIfAny (scope : Scope) (e : Expr) : Prop := e = .absent ∨ Bound scope e

lemma bound_literalOf (scope : Scope) (text : String) : Bound scope (literalOf text) := by
  unfold literalOf
  split_ifs <;> exact .literal _ _

lemma bound_scalarExpr {scope : Scope} {s : Yaml.Scalar} {e : Expr}
    (h : scalarExpr scope s = .ok e) : Bound scope e := by
  cases s with
  | null => cases h
  | string text =>
    simp only [scalarExpr] at h
    split_ifs at h
    · cases h
    · cases h
      exact .ident text
  | _ =>
    cases h
    exact .literal _ _

mutual

lemma bound_expr {scope : Scope} : ∀ {form : ExprForm} {e : Expr},
    expr scope form = .ok e → Bound scope e
  | .scalar s, e, h => bound_scalarExpr (by rwa [expr] at h)
  | .list shown, e, h => by rw [expr] at h; cases h
  | .kinds [], e, h => by rw [expr] at h; cases h
  | .kinds (k :: _), e, h => bound_exprKind (by rwa [expr] at h)

lemma bound_exprKind {scope : Scope} : ∀ {kind : ExprKind} {e : Expr},
    exprKind scope kind = .ok e → Bound scope e
  | .lit text, e, h => by
    rw [exprKind] at h
    cases h
    exact bound_literalOf scope text
  | .call callee as, e, h => by
    rw [exprKind] at h
    split_ifs at h
    · cases h
    · obtain ⟨es, hes, h⟩ := Resolve.bind_eq_ok.mp h
      cases h
      exact .call (bound_args hes)
  | .binary op x y, e, h => by
    rw [exprKind] at h
    obtain ⟨x', hx, h⟩ := Resolve.bind_eq_ok.mp h
    obtain ⟨y', hy, h⟩ := Resolve.bind_eq_ok.mp h
    cases h
    exact .binary (bound_operand hx) (bound_operand hy)
  | .unary op x, e, h => by
    rw [exprKind] at h
    obtain ⟨x', hx, h⟩ := Resolve.bind_eq_ok.mp h
    cases h
    exact .unary (bound_operand hx)
  | .assign op lhs rhs, e, h => by
    rw [exprKind] at h
    obtain ⟨l, hl, h⟩ := Resolve.bind_eq_ok.mp h
    obtain ⟨r, hr, h⟩ := Resolve.bind_eq_ok.mp h
    cases h
    exact .assign (bound_operand hl) (bound_operand hr)
  | .member x field, e, h => by
    rw [exprKind] at h
    obtain ⟨x', hx, h⟩ := Resolve.bind_eq_ok.mp h
    cases h
    exact .member (bound_operand hx)
  | .index x i, e, h => by
    rw [exprKind] at h
    obtain ⟨x', hx, h⟩ := Resolve.bind_eq_ok.mp h
    obtain ⟨i', hi, h⟩ := Resolve.bind_eq_ok.mp h
    cases h
    exact .index (bound_operand hx) (bound_operand hi)

lemma bound_operand {scope : Scope} : ∀ {form : Option ExprForm} {e : Expr},
    operand scope form = .ok e → Bound scope e
  | none, e, h => by rw [operand] at h; cases h
  | some form, e, h => bound_expr (by rwa [operand] at h)

lemma bound_args {scope : Scope} {callee : String} : ∀ {i : Nat} {forms : List ExprForm}
    {es : List Expr}, args scope callee i forms = .ok es → ∀ e ∈ es, Bound scope e
  | _, [], es, h => by
    rw [args] at h
    cases h
    simp
  | i, form :: forms, es, h => by
    rw [args] at h
    obtain ⟨e, he, h⟩ := Resolve.bind_eq_ok.mp h
    obtain ⟨es', hes, h⟩ := Resolve.bind_eq_ok.mp h
    cases h
    exact List.forall_mem_cons.mpr ⟨bound_expr (Resolve.within_eq_ok.mp he), bound_args hes⟩

end

lemma bound_optionalExpr {scope : Scope} {step : Step} {form : Option ExprForm} {e : Expr}
    (h : optionalExpr scope step form = .ok e) : BoundIfAny scope e := by
  cases form with
  | none =>
    cases h
    exact .inl rfl
  | some form => exact .inr (bound_expr (Resolve.within_eq_ok.mp h))

/-! ### Declarations -/

/-- A type that has a name. -/
def Named (t : ShaderType) : Prop := ∃ word, ShaderType.parse? word = some t

/-- What a declaration can be in a context. Its initial value is outside its own scope. -/
structure Declares (c : Context) (d : VarDecl) : Prop where
  id : d.var.id = c.declared
  name : d.var.name ≠ ""
  type : Named d.var.type
  qualifier : ∃ word, Qualifier.parse? word = some d.var.qualifier
  init : BoundIfAny c.scope d.init

lemma variableBody_eq_ok {c : Context} {f : VarForm} {d : VarDecl} (hname : f.name ≠ "")
    (h : variableBody c f = .ok d) : Declares c d := by
  unfold variableBody at h
  -- every check but the last one is a match on what a word means
  split at h
  swap
  · cases h
  rename_i type htype
  split at h
  swap
  · cases h
  rename_i qualifier hqualifier
  split at h
  swap
  · cases h
  dsimp only at h
  split_ifs at h
  · cases h
  split at h
  · cases h
    exact ⟨rfl, hname, ⟨_, htype⟩, ⟨_, hqualifier⟩, .inl rfl⟩
  · obtain ⟨init, hinit, h⟩ := Resolve.bind_eq_ok.mp h
    cases h
    exact ⟨rfl, hname, ⟨_, htype⟩, ⟨_, hqualifier⟩, .inr (bound_expr hinit)⟩

lemma variableDecl_eq_ok {c c' : Context} {f : VarForm} {d : VarDecl}
    (h : variableDecl c f = .ok (d, c')) : Declares c d ∧ c' = c.declare d.var := by
  unfold variableDecl at h
  split_ifs at h with hname
  · cases h
  · obtain ⟨d', hd, h⟩ := Resolve.bind_eq_ok.mp h
    cases h
    exact ⟨variableBody_eq_ok hname (Resolve.within_eq_ok.mp hd), rfl⟩

/-! ### Statements -/

/-- The statements that are one word. -/
def wordStmts : List Stmt := [.discard, .breakLoop, .continueLoop, .returns .absent]

/-- From the first context these statements lead to the second one. Each way to make one
statement is a rule for a list of one; a branch that is left out is an empty one. -/
inductive Elaborates : Context → List Stmt → Context → Prop
  | nil (c : Context) : Elaborates c [] c
  | cons {c d e : Context} {s : Stmt} {ss : List Stmt} :
    Elaborates c [s] d → Elaborates d ss e → Elaborates c (s :: ss) e
  | word (c : Context) {s : Stmt} : s ∈ wordStmts → Elaborates c [s] c
  | block {c d : Context} {ss : List Stmt} :
    Elaborates c ss d → Elaborates c [.block ss] (c.leave d)
  | decl {c : Context} {d : VarDecl} : Declares c d → Elaborates c [.decl d] (c.declare d.var)
  | expr {c : Context} {x : Expr} : Bound c.scope x → Elaborates c [.expr x] c
  | returns {c : Context} {x : Expr} : Bound c.scope x → Elaborates c [.returns x] c
  | ifElse {c d e : Context} {cond : Expr} {yes : List Stmt} {no : Option (List Stmt)} :
    Bound c.scope cond → Elaborates c yes d → Elaborates (c.leave d) (no.getD []) e →
    Elaborates c [.ifElse cond (.block yes) ((no.map .block).getD .absent)] (c.leave e)
  | loop {c d e : Context} {init : Option Stmt} {cond post : Expr} {body : List Stmt} :
    Elaborates c init.toList d → BoundIfAny d.scope cond → BoundIfAny d.scope post →
    Elaborates d body e →
    Elaborates c [.loop (init.getD .absent) cond post (.block body)] (c.leave e)

lemma mem_wordStmts {word : String} {s : Stmt} (h : wordStmt word = .ok s) : s ∈ wordStmts := by
  unfold wordStmt at h
  split at h <;> cases h <;> simp [wordStmts]

lemma elaborates_params {c c' : Context} {forms : List VarForm} {ps : List VarDecl}
    (h : params c forms = .ok (ps, c')) : Elaborates c (ps.map .decl) c' := by
  induction forms generalizing c ps with
  | nil =>
    cases h
    exact .nil _
  | cons f forms ih =>
    unfold params at h
    obtain ⟨⟨p, d⟩, hp, h⟩ := Resolve.bind_eq_ok.mp h
    obtain ⟨⟨ps', e⟩, hps, h⟩ := Resolve.bind_eq_ok.mp h
    cases h
    obtain ⟨hdeclares, rfl⟩ := variableDecl_eq_ok hp
    exact .cons (.decl hdeclares) (ih hps)

mutual

lemma elaborates_stmt : ∀ {c c' : Context} {form : StmtForm} {s : Stmt},
    stmt c form = .ok (s, c') → Elaborates c [s] c'
  | c, c', .word text, s, h => by
    rw [stmt] at h
    obtain ⟨s', hs, h⟩ := Resolve.bind_eq_ok.mp h
    cases h
    exact .word c (mem_wordStmts hs)
  | c, c', .kinds [], s, h => by rw [stmt] at h; cases h
  | c, c', .kinds (k :: _), s, h => elaborates_stmtKind (by rwa [stmt] at h)

lemma elaborates_stmtKind : ∀ {c c' : Context} {kind : StmtKind} {s : Stmt},
    stmtKind c kind = .ok (s, c') → Elaborates c [s] c'
  | c, c', .block forms, s, h => by
    rw [stmtKind] at h
    obtain ⟨⟨ss, d⟩, hss, h⟩ := Resolve.bind_eq_ok.mp h
    cases h
    exact .block (elaborates_stmts hss)
  | c, c', .var f, s, h => by
    rw [stmtKind] at h
    obtain ⟨⟨d, e⟩, hd, h⟩ := Resolve.bind_eq_ok.mp h
    cases h
    obtain ⟨hdeclares, rfl⟩ := variableDecl_eq_ok hd
    exact .decl hdeclares
  | c, c', .expr form, s, h => by
    rw [stmtKind] at h
    obtain ⟨x, hx, h⟩ := Resolve.bind_eq_ok.mp h
    cases h
    exact .expr (bound_expr hx)
  | c, c', .returns form, s, h => by
    rw [stmtKind] at h
    obtain ⟨x, hx, h⟩ := Resolve.bind_eq_ok.mp h
    cases h
    exact .returns (bound_expr hx)
  | c, c', .ifElse none _ _, s, h => by rw [stmtKind] at h; cases h
  | c, c', .ifElse (some cond) yes no, s, h => by
    rw [stmtKind] at h
    obtain ⟨x, hx, h⟩ := Resolve.bind_eq_ok.mp h
    obtain ⟨⟨ys, d⟩, hys, h⟩ := Resolve.bind_eq_ok.mp h
    obtain ⟨⟨n, e⟩, hn, h⟩ := Resolve.bind_eq_ok.mp h
    cases h
    obtain ⟨ns, rfl, hns⟩ := elaborates_elseBranch hn
    exact .ifElse (bound_expr hx) (elaborates_stmts (Resolve.within_eq_ok.mp hys)) hns
  | c, c', .loop init cond post body, s, h => by
    rw [stmtKind] at h
    obtain ⟨⟨i, d⟩, hi, h⟩ := Resolve.bind_eq_ok.mp h
    obtain ⟨x, hx, h⟩ := Resolve.bind_eq_ok.mp h
    obtain ⟨y, hy, h⟩ := Resolve.bind_eq_ok.mp h
    obtain ⟨⟨bs, e⟩, hbs, h⟩ := Resolve.bind_eq_ok.mp h
    cases h
    obtain ⟨start, rfl, hstart⟩ := elaborates_loopInit hi
    exact .loop hstart (bound_optionalExpr hx) (bound_optionalExpr hy)
      (elaborates_stmts (Resolve.within_eq_ok.mp hbs))

lemma elaborates_elseBranch : ∀ {c c' : Context} {forms : Option (List StmtForm)} {s : Stmt},
    elseBranch c forms = .ok (s, c') →
      ∃ no : Option (List Stmt), s = (no.map .block).getD .absent ∧ Elaborates c (no.getD []) c'
  | c, c', none, s, h => by
    rw [elseBranch] at h
    cases h
    exact ⟨none, rfl, .nil c⟩
  | c, c', some forms, s, h => by
    rw [elseBranch] at h
    obtain ⟨⟨ss, d⟩, hss, h⟩ := Resolve.bind_eq_ok.mp h
    cases h
    exact ⟨some ss, rfl, elaborates_stmts (Resolve.within_eq_ok.mp hss)⟩

lemma elaborates_loopInit : ∀ {c c' : Context} {form : Option StmtForm} {s : Stmt},
    loopInit c form = .ok (s, c') →
      ∃ init : Option Stmt, s = init.getD .absent ∧ Elaborates c init.toList c'
  | c, c', none, s, h => by
    rw [loopInit] at h
    cases h
    exact ⟨none, rfl, .nil c⟩
  | c, c', some form, s, h => by
    rw [loopInit] at h
    exact ⟨some s, rfl, elaborates_stmt (Resolve.within_eq_ok.mp h)⟩

lemma elaborates_stmts : ∀ {c c' : Context} {i : Nat} {forms : List StmtForm} {ss : List Stmt},
    stmts c i forms = .ok (ss, c') → Elaborates c ss c'
  | c, c', i, [], ss, h => by
    rw [stmts] at h
    cases h
    exact .nil c
  | c, c', i, form :: forms, ss, h => by
    rw [stmts] at h
    obtain ⟨⟨s, d⟩, hs, h⟩ := Resolve.bind_eq_ok.mp h
    obtain ⟨⟨ss', e⟩, hss, h⟩ := Resolve.bind_eq_ok.mp h
    cases h
    exact .cons (elaborates_stmt (Resolve.within_eq_ok.mp hs)) (elaborates_stmts hss)

end

/-! ### Shaders -/

/-- From the first context this declaration leads to the second one. -/
inductive ElaboratesDecl : Context → Decl → Context → Prop
  | var {c : Context} {d : VarDecl} : Declares c d → ElaboratesDecl c (.var d) (c.declare d.var)
  | func {c d e : Context} {g : FuncDef} :
    Named g.returns → Elaborates c (g.params.map .decl) d → Elaborates d g.body e →
    ElaboratesDecl c (.func g) (c.leave e)

lemma elaborates_function {c c' : Context} {form : FuncForm} {g : FuncDef}
    (h : function c form = .ok (g, c')) : ElaboratesDecl c (.func g) c' := by
  replace h := Resolve.within_eq_ok.mp h
  split at h
  swap
  · cases h
  rename_i returns hreturns
  obtain ⟨⟨ps, d⟩, hps, h⟩ := Resolve.bind_eq_ok.mp h
  obtain ⟨⟨body, e⟩, hbody, h⟩ := Resolve.bind_eq_ok.mp h
  cases h
  exact .func ⟨_, hreturns⟩ (elaborates_params hps) (elaborates_stmts hbody)

lemma elaborates_decl {c c' : Context} {form : DeclForm} {x : Decl}
    (h : decl c form = .ok (x, c')) : ElaboratesDecl c x c' := by
  unfold decl at h
  split at h
  · obtain ⟨⟨v, d⟩, hv, h⟩ := Resolve.bind_eq_ok.mp h
    cases h
    obtain ⟨hdeclares, rfl⟩ := variableDecl_eq_ok hv
    exact .var hdeclares
  · obtain ⟨⟨g, d⟩, hg, h⟩ := Resolve.bind_eq_ok.mp h
    cases h
    exact elaborates_function hg
  · cases h

end Shaderwright.Source
