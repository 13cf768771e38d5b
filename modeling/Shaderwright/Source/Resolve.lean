import Shaderwright.Shader.Tree
import Shaderwright.Source.Form
import Shaderwright.Text.Quoted

/-!
From the form of a shader file to a shader tree. Every identifier is bound to the innermost
declaration of its name that stands before it; the stage inputs are declared outside of all.
-/

namespace Shaderwright.Source

inductive Cause where
  | declarationKind
  | unnamedVariable
  | unknownType (type : String)
  | unknownQualifier (qualifier : String)
  | unknownPrecision (precision : String)
  | negativeArray
  | unknownReturnType (type : String)
  | unknownStatement (word : String)
  | emptyStatement
  | ifWithoutCondition
  | missingExpression
  | emptyExpression
  | callWithoutCallee
  | emptyIdentifier
  | unsupportedList (shown : String)
  deriving DecidableEq, Repr

/-- A step on the way from the file to the part that is wrong. -/
inductive Step where
  | decl (i : Nat)
  | var (name : String)
  | function (name : String)
  | statement (i : Nat)
  | argument (callee : String) (i : Nat)
  | thenBranch
  | elseBranch
  | loopInit
  | loopCond
  | loopPost
  | loopBody
  deriving DecidableEq, Repr

/-- The steps lead from the outside in. -/
structure FormError where
  steps : List Step
  cause : Cause
  deriving DecidableEq, Repr

namespace Cause

def message : Cause → String
  | declarationKind => "declaration needs exactly one of var or func"
  | unnamedVariable => "variable without name"
  | unknownType type => "unknown type " ++ Text.quote type
  | unknownQualifier qualifier => "unknown qualifier " ++ Text.quote qualifier
  | unknownPrecision precision => "unknown precision " ++ Text.quote precision
  | negativeArray => "negative array size"
  | unknownReturnType type => "unknown return type " ++ Text.quote type
  | unknownStatement word => "unknown statement " ++ Text.quote word
  | emptyStatement => "empty statement"
  | ifWithoutCondition => "if without cond"
  | missingExpression => "missing expression"
  | emptyExpression => "empty expression"
  | callWithoutCallee => "call without callee"
  | emptyIdentifier => "empty identifier"
  | unsupportedList shown => "unsupported scalar " ++ shown ++ " ([]interface \x7b\x7d)"

end Cause

namespace Step

def text : Step → String
  | decl i => "decl " ++ toString i
  | var name => "variable " ++ Text.quote name
  | function name => "function " ++ Text.quote name
  | statement i => "statement " ++ toString i
  | argument callee i => callee ++ " argument " ++ toString i
  | thenBranch => "then"
  | elseBranch => "else"
  | loopInit => "for init"
  | loopCond => "for cond"
  | loopPost => "for post"
  | loopBody => "for body"

end Step

namespace FormError

def message (e : FormError) : String :=
  e.steps.foldr (fun step rest => step.text ++ ": " ++ rest) e.cause.message

end FormError

abbrev Resolve := Except FormError

namespace Resolve

def fail {α : Type} (cause : Cause) : Resolve α := .error ⟨[], cause⟩

/-- Whatever is wrong lies behind this step. -/
def within {α : Type} (step : Step) (r : Resolve α) : Resolve α :=
  r.mapError fun e => { e with steps := step :: e.steps }

end Resolve

abbrev Scope := List Variable

def Scope.ref (scope : Scope) (name : String) : Ref :=
  match scope.find? fun v => v.name = name with
  | some v => .declared v
  | none =>
    match StageInput.ofName? name with
    | some i => .input i
    | none => .unresolved

/-! ### Expressions -/

/-- The literal that an explicit text writes. -/
def literalOf (text : String) : Expr :=
  if text = "true" || text = "false" then .literal text .bool
  else if text.toList.any fun c => c == '.' || c == 'e' || c == 'E' then .literal text .float
  else .literal text .int

/-- The text of a float literal, which always looks like one. -/
def floatText (x : Binary64) : String :=
  let text := x.text
  if text.toList.any fun c => c == '.' || c == 'e' || c == 'E' || c == 'n' then text
  else text ++ ".0"

def scalarExpr (scope : Scope) : Yaml.Scalar → Resolve Expr
  | .null => .fail .emptyExpression
  | .bool b => .ok (.literal (if b then "true" else "false") .bool)
  | .int n => .ok (.literal (toString n) .int)
  | .float x => .ok (.literal (floatText x) .float)
  | .string s => if s = "" then .fail .emptyIdentifier else .ok (.ident s (scope.ref s))

mutual

def expr (scope : Scope) : ExprForm → Resolve Expr
  | .scalar s => scalarExpr scope s
  | .list shown => .fail (.unsupportedList shown)
  | .kinds [] => .fail .emptyExpression
  | .kinds (k :: _) => exprKind scope k

def exprKind (scope : Scope) : ExprKind → Resolve Expr
  | .lit text => .ok (literalOf text)
  | .call callee as =>
    if callee = "" then .fail .callWithoutCallee
    else do return .call callee (← args scope callee 0 as)
  | .binary op x y => do
    let x ← operand scope x
    return .binary op x (← operand scope y)
  | .unary op x => do return .unary op (← operand scope x)
  | .assign op lhs rhs => do
    let lhs ← operand scope lhs
    return .assign (if op = "" then "=" else op) lhs (← operand scope rhs)
  | .member x field => do return .member (← operand scope x) field
  | .index x i => do
    let x ← operand scope x
    return .index x (← operand scope i)

def operand (scope : Scope) : Option ExprForm → Resolve Expr
  | none => .fail .missingExpression
  | some e => expr scope e

def args (scope : Scope) (callee : String) : Nat → List ExprForm → Resolve (List Expr)
  | _, [] => .ok []
  | i, a :: rest => do
    let a ← Resolve.within (.argument callee i) (expr scope a)
    return a :: (← args scope callee (i + 1) rest)

end

def optionalExpr (scope : Scope) (step : Step) : Option ExprForm → Resolve Expr
  | none => .ok .absent
  | some e => Resolve.within step (expr scope e)

/-! ### Declarations -/

/-- The declarations in scope and the number of variables declared so far in the whole shader. -/
structure Context where
  scope : Scope := []
  declared : Nat := 0
  deriving Repr, Inhabited

namespace Context

def declare (c : Context) (v : Variable) : Context := ⟨v :: c.scope, c.declared + 1⟩

/-- Leave an inner scope: its declarations are gone, but their numbers are used up. -/
def leave (outer inner : Context) : Context := ⟨outer.scope, inner.declared⟩

end Context

def variableBody (c : Context) (f : VarForm) : Resolve VarDecl := do
  let some type := ShaderType.parse? f.type | .fail (.unknownType f.type)
  let some qualifier := Qualifier.parse? f.qualifier | .fail (.unknownQualifier f.qualifier)
  let some precision := Precision.parse? f.precision | .fail (.unknownPrecision f.precision)
  if f.array < 0 then .fail .negativeArray
  let init ← match f.init with
    | none => pure .absent
    | some e => expr c.scope e
  return {
    var := {
      id := c.declared
      name := f.name
      type := type
      qualifier := qualifier
      precision := precision
      slot := Int64.ofInt f.slot
      isArray := 0 < f.array
      arraySize := Int64.ofInt f.array
      out := f.out }
    init := init }

/-- A declaration, which is in scope only behind its own initial value. -/
def variableDecl (c : Context) (f : VarForm) : Resolve (VarDecl × Context) := do
  if f.name = "" then .fail .unnamedVariable
  let d ← Resolve.within (.var f.name) (variableBody c f)
  return (d, c.declare d.var)

def params (c : Context) : List VarForm → Resolve (List VarDecl × Context)
  | [] => .ok ([], c)
  | f :: rest => do
    let (p, c) ← variableDecl c f
    let (ps, c) ← params c rest
    return (p :: ps, c)

/-! ### Statements -/

def wordStmt : String → Resolve Stmt
  | "" => .fail .emptyStatement
  | "discard" => .ok .discard
  | "break" => .ok .breakLoop
  | "continue" => .ok .continueLoop
  | "return" => .ok (.returns .absent)
  | word => .fail (.unknownStatement word)

mutual

def stmt (c : Context) : StmtForm → Resolve (Stmt × Context)
  | .word text => do return (← wordStmt text, c)
  | .kinds [] => .fail .emptyStatement
  | .kinds (k :: _) => stmtKind c k

def stmtKind (c : Context) : StmtKind → Resolve (Stmt × Context)
  | .block ss => do
    let (ss, inner) ← stmts c 0 ss
    return (.block ss, c.leave inner)
  | .var f => do
    let (d, c) ← variableDecl c f
    return (.decl d, c)
  | .expr e => do return (.expr (← expr c.scope e), c)
  | .returns e => do return (.returns (← expr c.scope e), c)
  | .ifElse none _ _ => .fail .ifWithoutCondition
  | .ifElse (some cond) yes no => do
    let cond ← expr c.scope cond
    let (yes, inner) ← Resolve.within .thenBranch (stmts c 0 yes)
    let c := c.leave inner
    let (no, inner) ← elseBranch c no
    return (.ifElse cond (.block yes) no, c.leave inner)
  | .loop init cond post body => do
    let (init, loop) ← loopInit c init
    let cond ← optionalExpr loop.scope .loopCond cond
    let post ← optionalExpr loop.scope .loopPost post
    let (body, inner) ← Resolve.within .loopBody (stmts loop 0 body)
    return (.loop init cond post (.block body), c.leave inner)

def elseBranch (c : Context) : Option (List StmtForm) → Resolve (Stmt × Context)
  | none => .ok (.absent, c)
  | some ss => do
    let (ss, inner) ← Resolve.within .elseBranch (stmts c 0 ss)
    return (.block ss, inner)

def loopInit (c : Context) : Option StmtForm → Resolve (Stmt × Context)
  | none => .ok (.absent, c)
  | some s => Resolve.within .loopInit (stmt c s)

def stmts (c : Context) (i : Nat) : List StmtForm → Resolve (List Stmt × Context)
  | [] => .ok ([], c)
  | s :: rest => do
    let (s, c) ← Resolve.within (.statement i) (stmt c s)
    let (rest, c) ← stmts c (i + 1) rest
    return (s :: rest, c)

end

/-! ### Shaders -/

def function (c : Context) (f : FuncForm) : Resolve (FuncDef × Context) :=
  Resolve.within (.function f.name) do
    let some returns := ShaderType.parse? f.returns | .fail (.unknownReturnType f.returns)
    let (ps, inner) ← params c f.params
    let (body, inner) ← stmts inner 0 f.body
    return (⟨f.name, returns, ps, body⟩, c.leave inner)

def decl (c : Context) (d : DeclForm) : Resolve (Decl × Context) :=
  match d.var, d.func with
  | some v, none => do
    let (v, c) ← variableDecl c v
    return (.var v, c)
  | none, some f => do
    let (f, c) ← function c f
    return (.func f, c)
  | _, _ => .fail .declarationKind

def decls (c : Context) (i : Nat) : List DeclForm → Resolve (List Decl)
  | [] => .ok []
  | d :: rest => do
    let (d, c) ← Resolve.within (.decl i) (decl c d)
    return d :: (← decls c (i + 1) rest)

def shader (f : ShaderForm) : Resolve Shader := do
  return ⟨f.name, ← decls {} 0 f.decls⟩

end Shaderwright.Source
