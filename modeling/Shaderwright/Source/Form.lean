import Shaderwright.Yaml.Scalar

/-!
The form of a shader file: what a file says before names are resolved. A statement or an
expression is a word or a scalar, or a mapping whose keys name the kinds that it sets.
-/

namespace Shaderwright.Source

mutual

inductive ExprForm where
  | scalar (s : Yaml.Scalar)
  /-- A list where an expression belongs, as it is shown in a complaint. -/
  | list (shown : String)
  /-- The kinds that a mapping sets, in the order of precedence. -/
  | kinds (ks : List ExprKind)

inductive ExprKind where
  | lit (text : String)
  | call (callee : String) (args : List ExprForm)
  | binary (op : String) (x y : Option ExprForm)
  | unary (op : String) (x : Option ExprForm)
  | assign (op : String) (lhs rhs : Option ExprForm)
  | member (x : Option ExprForm) (field : String)
  | index (x i : Option ExprForm)

end

deriving instance Repr for ExprForm, ExprKind

instance : Inhabited ExprForm := ⟨.kinds []⟩

structure VarForm where
  name : String := ""
  type : String := ""
  qualifier : String := ""
  precision : String := ""
  slot : Int := 0
  array : Int := 0
  out : Bool := false
  init : Option ExprForm := none
  deriving Repr, Inhabited

mutual

inductive StmtForm where
  | word (text : String)
  /-- The kinds that a mapping sets, in the order of precedence. -/
  | kinds (ks : List StmtKind)

inductive StmtKind where
  | block (stmts : List StmtForm)
  | var (v : VarForm)
  | expr (e : ExprForm)
  | returns (e : ExprForm)
  | ifElse (cond : Option ExprForm) (yes : List StmtForm) (no : Option (List StmtForm))
  | loop (init : Option StmtForm) (cond post : Option ExprForm) (body : List StmtForm)

end

deriving instance Repr for StmtForm, StmtKind

instance : Inhabited StmtForm := ⟨.kinds []⟩

structure FuncForm where
  name : String := ""
  returns : String := ""
  params : List VarForm := []
  body : List StmtForm := []
  deriving Repr, Inhabited

structure DeclForm where
  var : Option VarForm := none
  func : Option FuncForm := none
  deriving Repr, Inhabited

structure ShaderForm where
  name : String := ""
  decls : List DeclForm := []
  deriving Repr, Inhabited

end Shaderwright.Source
