import Shaderwright.Emit.Stmt
import Shaderwright.Text.Basic

/-!
Writing whole shaders: a header and the declarations in their order.
-/

namespace Shaderwright

structure Dialect (σ : Type) extends StmtDialect σ where
  define : FuncDef → Emit σ Unit

namespace StmtDialect

variable {σ : Type}

def funcDef (d : StmtDialect σ) (f : FuncDef) : Emit σ Unit := do
  let type ← d.typeName f.returns
  let params ← f.params.mapM d.paramText
  let signature := type ++ " " ++ d.functionName f.name ++ "(" ++ Text.joinWith ", " params ++ ")"
  d.funcWithSignature signature f

end StmtDialect

namespace Dialect

variable {σ : Type}

def decl (d : Dialect σ) : Decl → Emit σ Unit
  | .absent => throw .noDeclaration
  | .var v => d.declare v
  | .func f => do
    modify fun w => { w with function := some f.name }
    (d.define f).andThen fun w => { w with function := none }

def decls (d : Dialect σ) : List Decl → Emit σ Unit
  | [] => pure ()
  | x :: rest => do
    d.decl x
    decls d rest

def visit (d : Dialect σ) (header : String) (s : Shader) : Emit σ Unit := do
  Emit.write header
  d.decls s.decls

end Dialect

end Shaderwright
