import Shaderwright.Emit.NameTable
import Shaderwright.Emit.Writer
import Shaderwright.Shader.Typing

/-!
Writing expressions. The tables and the treatment of calls belong to the target language;
everything else is written alike for all of them.
-/

namespace Shaderwright

/-- An argument of a call and how it is written. -/
structure Operand (σ : Type) where
  expr : Expr
  write : Emit σ Unit
  /-- For an element `name[i]` of a named array, the name and how the index is written. -/
  element : Option (String × Emit σ Unit)

/-- The part of a target language that concerns expressions. -/
structure ExprDialect (σ : Type) where
  types : NameTable
  qualifiers : NameTable
  functions : NameTable
  /-- The names of variables may change while a shader is written. -/
  variableNames : σ → NameTable
  call : String → List (Operand σ) → Emit σ Unit

namespace ExprDialect

variable {σ : Type}

/-- What a key is mapped to; a key without a mapping is a fault. -/
def mapped (t : NameTable) (key : String) : Emit σ String :=
  match t.get? key with
  | some v => pure v
  | none => throw (.unmapped t.name key)

def typeName (d : ExprDialect σ) (t : ShaderType) : Emit σ String :=
  mapped d.types t.name

def qualifier (d : ExprDialect σ) (key : String) : Emit σ String :=
  mapped d.qualifiers key

def variableName (d : ExprDialect σ) (name : String) : Emit σ String := do
  return (d.variableNames (← get).own).get name

def functionName (d : ExprDialect σ) (name : String) : String :=
  d.functions.get name

mutual

def expr (d : ExprDialect σ) : Expr → Emit σ Unit
  | .absent => throw .noExpression
  | .ident name ref => do
    if isStageInput name ref && (← get).function != some entryPointName then
      throw (.inputScope name)
    Emit.write (← d.variableName name)
  | .literal text _ => Emit.write text
  | .call callee args => d.call callee (operands d args)
  | .binary op x y => do
    Emit.write "("
    expr d x
    Emit.write (" " ++ op ++ " ")
    expr d y
    Emit.write ")"
  | .unary op x => do
    Emit.write op
    expr d x
  | .assign op lhs rhs => do
    expr d lhs
    Emit.write (" " ++ op ++ " ")
    expr d rhs
  | .member x field => do
    expr d x
    Emit.write ("." ++ field)
  | .index x i => do
    expr d x
    Emit.write "["
    expr d i
    Emit.write "]"

def operands (d : ExprDialect σ) : List Expr → List (Operand σ)
  | [] => []
  | .index (.ident name ref) i :: rest =>
    ⟨.index (.ident name ref) i, expr d (.index (.ident name ref) i), some (name, expr d i)⟩ ::
      operands d rest
  | arg :: rest => ⟨arg, expr d arg, none⟩ :: operands d rest

end

def exprText (d : ExprDialect σ) (e : Expr) : Emit σ String :=
  Emit.captured (d.expr e)

def writeArgs (args : List (Operand σ)) : Emit σ Unit :=
  Emit.separated ", " (args.map Operand.write)

def args (d : ExprDialect σ) (es : List Expr) : Emit σ Unit :=
  writeArgs (d.operands es)

/-- A call of a function that is already named in the target language. -/
def callNamed (name : String) (args : List (Operand σ)) : Emit σ Unit := do
  Emit.write (name ++ "(")
  writeArgs args
  Emit.write ")"

end ExprDialect

end Shaderwright
