import Mathlib.Tactic.Common
import Shaderwright.Proofs.Emit.Writable

/-!
Trees in which nothing is missing: every part of an expression and every branch is there, and
every type and qualifier has a name in the target languages. What a tree may leave out is a value,
an else branch and each of the three clauses of a loop. A complete tree need not be writable: a
loop can still start with a statement that no language allows there.
-/

namespace Shaderwright

def Expr.Complete (e : Expr) : Prop := .absent ∉ e.parts

def Expr.CompleteIfAny (e : Expr) : Prop := e.isAbsent = true ∨ e.Complete

namespace Expr

lemma not_complete_absent : ¬ Expr.Complete .absent := by simp [Complete, parts]

lemma complete_call {callee : String} {args : List Expr} :
    Complete (.call callee args) ↔ ∀ arg ∈ args, arg.Complete := by
  simp [Complete, parts, partsOf_eq_flatMap]

lemma complete_binary {op : String} {x y : Expr} :
    Complete (.binary op x y) ↔ x.Complete ∧ y.Complete := by
  simp [Complete, parts]

lemma complete_unary {op : String} {x : Expr} : Complete (.unary op x) ↔ x.Complete := by
  simp [Complete, parts]

lemma complete_assign {op : String} {lhs rhs : Expr} :
    Complete (.assign op lhs rhs) ↔ lhs.Complete ∧ rhs.Complete := by
  simp [Complete, parts]

lemma complete_member {x : Expr} {field : String} :
    Complete (.member x field) ↔ x.Complete := by
  simp [Complete, parts]

lemma complete_index {x i : Expr} : Complete (.index x i) ↔ x.Complete ∧ i.Complete := by
  simp [Complete, parts]

lemma CompleteIfAny.complete {e : Expr} (h : e.CompleteIfAny) (he : e.isAbsent = false) :
    e.Complete :=
  h.resolve_left (by simp [he])

end Expr

/-- A declaration whose type and qualifier have names, with a complete value if it has any. -/
structure VarDecl.Complete (v : VarDecl) : Prop where
  type : v.var.type.known = true
  qualifier : v.var.qualifier.known = true
  init : v.init.CompleteIfAny

/-- A statement with all the statements and expressions that it needs. -/
inductive Stmt.Complete : Stmt → Prop
  | block {ss : List Stmt} : (∀ s ∈ ss, Complete s) → Complete (.block ss)
  | decl {v : VarDecl} : v.Complete → Complete (.decl v)
  | expr {x : Expr} : x.Complete → Complete (.expr x)
  | returns {value : Expr} : value.CompleteIfAny → Complete (.returns value)
  | ifElse {cond : Expr} {yes no : Stmt} : cond.Complete → Complete yes →
    (no.isAbsent = false → Complete no) → Complete (.ifElse cond yes no)
  | loop {init : Stmt} {cond post : Expr} {body : Stmt} :
    (init.isAbsent = false → Complete init) → cond.CompleteIfAny → post.CompleteIfAny →
    Complete body → Complete (.loop init cond post body)
  | discard : Complete .discard
  | breakLoop : Complete .breakLoop
  | continueLoop : Complete .continueLoop

structure FuncDef.Complete (f : FuncDef) : Prop where
  returns : f.returns.known = true
  params : ∀ p ∈ f.params, p.Complete
  body : ∀ s ∈ f.body, s.Complete

inductive Decl.Complete : Decl → Prop
  | var {v : VarDecl} : v.Complete → Complete (.var v)
  | func {f : FuncDef} : f.Complete → Complete (.func f)

/-! ### Starts of loops -/

/-- Whether a loop may start with the statement: with nothing, a declaration or an expression. -/
def Stmt.canStart : Stmt → Bool
  | .absent => true
  | .decl _ => true
  | .expr _ => true
  | _ => false

mutual

/-- What the loops in a statement start with. -/
def Stmt.loopStarts : Stmt → List Stmt
  | .block ss => loopStartsOf ss
  | .ifElse _ yes no => yes.loopStarts ++ no.loopStarts
  | .loop init _ _ body => init :: (init.loopStarts ++ body.loopStarts)
  | _ => []

def Stmt.loopStartsOf : List Stmt → List Stmt
  | [] => []
  | s :: ss => s.loopStarts ++ loopStartsOf ss

end

lemma Stmt.loopStartsOf_eq_flatMap (ss : List Stmt) :
    Stmt.loopStartsOf ss = ss.flatMap Stmt.loopStarts := by
  induction ss with
  | nil => simp [Stmt.loopStartsOf]
  | cons s ss ih => simp [Stmt.loopStartsOf, ih]

lemma Stmt.mem_loopStartsOf {s : Stmt} {ss : List Stmt} (hs : s ∈ ss) :
    s.loopStarts ⊆ Stmt.loopStartsOf ss := by
  rw [Stmt.loopStartsOf_eq_flatMap]
  exact fun start hstart => List.mem_flatMap.mpr ⟨s, hs, hstart⟩

def Decl.loopStarts : Decl → List Stmt
  | .func f => Stmt.loopStartsOf f.body
  | _ => []

def Shader.loopStarts (s : Shader) : List Stmt := s.decls.flatMap Decl.loopStarts

end Shaderwright
