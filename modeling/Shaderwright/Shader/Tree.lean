import Shaderwright.Shader.Variable

/-!
The shader tree: expressions, statements and declarations. A part that may be left out, and
a part that a malformed tree lacks, are both written `absent`.
-/

namespace Shaderwright

inductive Ref where
  | unresolved
  | input (i : StageInput)
  | declared (v : Variable)
  deriving DecidableEq, Repr, Inhabited

inductive LiteralKind where
  | float
  | int
  | bool
  | other (code : Nat)
  deriving DecidableEq, Repr, Inhabited

namespace LiteralKind

def ofCode : Nat → LiteralKind
  | 0 => float
  | 1 => int
  | 2 => bool
  | n => other n

def code : LiteralKind → Nat
  | float => 0
  | int => 1
  | bool => 2
  | other n => n

end LiteralKind

inductive Expr where
  | absent
  | ident (name : String) (ref : Ref)
  | literal (text : String) (kind : LiteralKind)
  | call (callee : String) (args : List Expr)
  | binary (op : String) (x y : Expr)
  | unary (op : String) (x : Expr)
  | assign (op : String) (lhs rhs : Expr)
  | member (x : Expr) (field : String)
  | index (x i : Expr)
  deriving Repr, Inhabited

namespace Expr

def isAbsent : Expr → Bool
  | absent => true
  | _ => false

end Expr

/-- A variable with its initial value, which is absent if there is none. -/
structure VarDecl where
  var : Variable
  init : Expr := .absent
  deriving Repr, Inhabited

inductive Stmt where
  | absent
  | block (stmts : List Stmt)
  | decl (d : VarDecl)
  | expr (x : Expr)
  | returns (value : Expr)
  | ifElse (cond : Expr) (thenBranch elseBranch : Stmt)
  | loop (init : Stmt) (cond post : Expr) (body : Stmt)
  | discard
  | breakLoop
  | continueLoop
  deriving Repr, Inhabited

namespace Stmt

def isAbsent : Stmt → Bool
  | absent => true
  | _ => false

end Stmt

structure FuncDef where
  name : String
  returns : ShaderType
  params : List VarDecl := []
  body : List Stmt := []
  deriving Repr, Inhabited

inductive Decl where
  | absent
  | var (d : VarDecl)
  | func (f : FuncDef)
  deriving Repr, Inhabited

structure Shader where
  name : String
  decls : List Decl := []
  deriving Repr, Inhabited

namespace Shader

def func? (s : Shader) (name : String) : Option FuncDef :=
  s.decls.findSome? fun
    | .func f => if f.name = name then some f else none
    | _ => none

end Shader

end Shaderwright
