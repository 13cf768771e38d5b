import Shaderwright.Emit.Shader

/-!
The plain target: every construct is written in the default way, with the names of four tables.
On request a function `main` becomes an entry point that returns its colour.
-/

namespace Shaderwright

structure PlainTarget where
  header : String := ""
  types : List (String × String) := []
  qualifiers : List (String × String) := []
  variableNames : List (String × String) := []
  functions : List (String × String) := []
  /-- Whether `main` is written as an entry point. -/
  entry : Bool := false
  deriving Repr, Inhabited

namespace PlainTarget

def exprDialect (t : PlainTarget) : ExprDialect Unit where
  types := ⟨"type", .absent, t.types⟩
  qualifiers := ⟨"qualifier", .absent, t.qualifiers⟩
  variableNames _ := ⟨"var", .identity, t.variableNames⟩
  functions := ⟨"funcname", .identity, t.functions⟩
  call callee args :=
    ExprDialect.callNamed ((NameTable.mk "funcname" .identity t.functions).get callee) args

def stmtDialect (t : PlainTarget) : StmtDialect Unit where
  toExprDialect := t.exprDialect
  declare := t.exprDialect.varDecl
  discard := "discard;"

def dialect (t : PlainTarget) : Dialect Unit where
  toStmtDialect := t.stmtDialect
  define f :=
    if t.entry && f.name = entryPointName then do
      let acc := f.accumulator
      modify fun w => { w with entry := .arm acc ("vec4 " ++ acc ++ " = vec4(0.0);") }
      t.stmtDialect.funcWithSignature "vec4 main()" f
    else t.stmtDialect.funcDef f

def translate (t : PlainTarget) : Option Shader → Except Fault String
  | none => .error .noShader
  | some s =>
    match (t.dialect.visit t.header s).exec { own := () } with
    | (.ok (), w) => .ok w.out
    | (.error e, _) => .error e

end PlainTarget

end Shaderwright
