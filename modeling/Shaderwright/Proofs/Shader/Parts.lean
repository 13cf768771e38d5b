import Mathlib.Tactic.Common
import Shaderwright.Shader.Tree

/-!
The parts of a shader tree: the expressions inside an expression or a statement, what holds
throughout an expression, and induction over the tree, where the parts that come in lists are given
as members.
-/

namespace Shaderwright

variable {P : Expr → Prop}

/-- An expression has a property if every one has it whose parts do. -/
@[elab_as_elim]
theorem Expr.inductOn (e : Expr) (absent : P .absent)
    (ident : ∀ name ref, P (.ident name ref)) (literal : ∀ text kind, P (.literal text kind))
    (call : ∀ callee args, (∀ arg ∈ args, P arg) → P (.call callee args))
    (binary : ∀ op x y, P x → P y → P (.binary op x y)) (unary : ∀ op x, P x → P (.unary op x))
    (assign : ∀ op lhs rhs, P lhs → P rhs → P (.assign op lhs rhs))
    (member : ∀ x field, P x → P (.member x field))
    (index : ∀ x i, P x → P i → P (.index x i)) : P e :=
  @Expr.rec P (fun es => ∀ arg ∈ es, P arg) absent ident literal call binary unary assign member
    index (by simp) (fun e es he hes => by simpa using ⟨he, hes⟩) e

variable {Q : Stmt → Prop}

/-- A statement has a property if every one has it whose statements do. -/
@[elab_as_elim]
theorem Stmt.inductOn (s : Stmt) (absent : Q .absent)
    (block : ∀ stmts, (∀ s ∈ stmts, Q s) → Q (.block stmts)) (decl : ∀ d, Q (.decl d))
    (expr : ∀ x, Q (.expr x)) (returns : ∀ value, Q (.returns value))
    (ifElse : ∀ cond yes no, Q yes → Q no → Q (.ifElse cond yes no))
    (loop : ∀ init cond post body, Q init → Q body → Q (.loop init cond post body))
    (discard : Q .discard) (breakLoop : Q .breakLoop) (continueLoop : Q .continueLoop) : Q s :=
  @Stmt.rec Q (fun stmts => ∀ s ∈ stmts, Q s) absent block decl expr returns ifElse loop discard
    breakLoop continueLoop (by simp) (fun s ss hs hss => by simpa using ⟨hs, hss⟩) s

/-! ### All expressions -/

mutual

/-- An expression and all expressions inside it. -/
def Expr.parts : Expr → List Expr
  | .absent => [.absent]
  | .ident name ref => [.ident name ref]
  | .literal text kind => [.literal text kind]
  | .call callee args => .call callee args :: partsOf args
  | .binary op x y => .binary op x y :: (x.parts ++ y.parts)
  | .unary op x => .unary op x :: x.parts
  | .assign op lhs rhs => .assign op lhs rhs :: (lhs.parts ++ rhs.parts)
  | .member x field => .member x field :: x.parts
  | .index x i => .index x i :: (x.parts ++ i.parts)

def Expr.partsOf : List Expr → List Expr
  | [] => []
  | e :: es => e.parts ++ partsOf es

end

lemma Expr.partsOf_eq_flatMap (es : List Expr) : Expr.partsOf es = es.flatMap Expr.parts := by
  induction es with
  | nil => simp [Expr.partsOf]
  | cons e es ih => simp [Expr.partsOf, ih]

/-- The expressions that stand right inside an expression. -/
def Expr.inner : Expr → List Expr
  | .absent => []
  | .ident _ _ => []
  | .literal _ _ => []
  | .call _ args => args
  | .binary _ x y => [x, y]
  | .unary _ x => [x]
  | .assign _ lhs rhs => [lhs, rhs]
  | .member x _ => [x]
  | .index x i => [x, i]

lemma Expr.parts_eq_cons (e : Expr) : e.parts = e :: e.inner.flatMap Expr.parts := by
  cases e <;> simp [Expr.parts, Expr.inner, Expr.partsOf_eq_flatMap]

def Expr.Throughout (p : Expr → Bool) (e : Expr) : Prop := ∀ x ∈ e.parts, p x = true

namespace Expr

variable {p : Expr → Bool}

instance (e : Expr) : Decidable (e.Throughout p) :=
  inferInstanceAs (Decidable (∀ x ∈ e.parts, p x = true))

lemma throughout_iff {e : Expr} :
    e.Throughout p ↔ p e = true ∧ ∀ x ∈ e.inner, x.Throughout p := by
  rw [Throughout, parts_eq_cons, List.forall_mem_cons]
  simp only [Throughout, List.mem_flatMap]
  refine and_congr_right fun _ => ⟨fun h x hx y hy => h y ⟨x, hx, hy⟩, ?_⟩
  rintro h y ⟨x, hx, hy⟩
  exact h x hx y hy

lemma throughout_leaf {e : Expr} (h : e.inner = []) : e.Throughout p ↔ p e = true := by
  rw [throughout_iff, h]
  simp

lemma throughout_call {callee : String} {args : List Expr} :
    (Expr.call callee args).Throughout p ↔
      p (.call callee args) = true ∧ ∀ x ∈ args, x.Throughout p :=
  throughout_iff

lemma throughout_binary {op : String} {x y : Expr} :
    (Expr.binary op x y).Throughout p ↔
      p (.binary op x y) = true ∧ x.Throughout p ∧ y.Throughout p := by
  simpa [inner] using throughout_iff (e := .binary op x y)

lemma throughout_unary {op : String} {x : Expr} :
    (Expr.unary op x).Throughout p ↔ p (.unary op x) = true ∧ x.Throughout p := by
  simpa [inner] using throughout_iff (e := .unary op x)

lemma throughout_assign {op : String} {lhs rhs : Expr} :
    (Expr.assign op lhs rhs).Throughout p ↔
      p (.assign op lhs rhs) = true ∧ lhs.Throughout p ∧ rhs.Throughout p := by
  simpa [inner] using throughout_iff (e := .assign op lhs rhs)

lemma throughout_member {x : Expr} {field : String} :
    (Expr.member x field).Throughout p ↔ p (.member x field) = true ∧ x.Throughout p := by
  simpa [inner] using throughout_iff (e := .member x field)

lemma throughout_index {x i : Expr} :
    (Expr.index x i).Throughout p ↔ p (.index x i) = true ∧ x.Throughout p ∧ i.Throughout p := by
  simpa [inner] using throughout_iff (e := .index x i)

end Expr

mutual

/-- The expressions of a statement. -/
def Stmt.exprs : Stmt → List Expr
  | .absent => []
  | .block ss => exprsOf ss
  | .decl v => v.init.parts
  | .expr x => x.parts
  | .returns value => value.parts
  | .ifElse cond yes no => cond.parts ++ yes.exprs ++ no.exprs
  | .loop init cond post body => init.exprs ++ cond.parts ++ post.parts ++ body.exprs
  | .discard => []
  | .breakLoop => []
  | .continueLoop => []

def Stmt.exprsOf : List Stmt → List Expr
  | [] => []
  | s :: ss => s.exprs ++ exprsOf ss

end

lemma Stmt.exprsOf_eq_flatMap (ss : List Stmt) : Stmt.exprsOf ss = ss.flatMap Stmt.exprs := by
  induction ss with
  | nil => simp [Stmt.exprsOf]
  | cons s ss ih => simp [Stmt.exprsOf, ih]

/-! ### Parameters -/

/-- The parameter of the shader that a declaration declares, if any. -/
def Decl.param? : Decl → Option Variable
  | .var v => if v.var.qualifier = .param then some v.var else none
  | _ => none

lemma Decl.param?_eq_some {x : Decl} {p : Variable} (h : x.param? = some p) :
    ∃ v, x = .var v ∧ v.var.qualifier = .param ∧ v.var = p := by
  cases x with
  | var v =>
    obtain ⟨hv, rfl⟩ : v.var.qualifier = .param ∧ v.var = p := by simpa [Decl.param?] using h
    exact ⟨v, rfl, hv, rfl⟩
  | _ => simp [Decl.param?] at h

def Shader.params (s : Shader) : List Variable := s.decls.filterMap Decl.param?

lemma Variable.count_pos (v : Variable) : 0 < v.count := by
  unfold Variable.count
  split
  · rename_i harray
    simpa using (Bool.and_eq_true_iff.mp harray).2
  · decide

end Shaderwright
