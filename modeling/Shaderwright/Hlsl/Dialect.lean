import Shaderwright.Emit.Names
import Shaderwright.Emit.Shader
import Shaderwright.Hlsl.Binding

/-!
HLSL as a target: parameters are bound to registers, a texture brings a sampler state along,
and vector arguments of the paint function are narrowed to the parameters it declares.
-/

namespace Shaderwright.Hlsl

def samplerSuffix : String := "_sampler"

def types : NameTable := typeTable "Texture2D"

def qualifiers : NameTable := qualifierTable "uniform" "out"

def inputName : StageInput → String
  | .fragCoord => "_position"
  | .texCoord => "_uv"
  | .vertexColor => "_color"
  | .localCoord => "_coord"

def variableNames : NameTable := inputTable inputName

def functions : NameTable := functionTable [
  ("mix", "lerp"), ("fract", "frac"), ("mod", "fmod"), ("inversesqrt", "rsqrt"),
  ("dFdx", "ddx"), ("dFdy", "ddy")]

def entrySignature : String :=
  "float4 main(float4 _position : SV_Position, float2 _uv : TEXCOORD0, " ++
    "float4 _color : COLOR0, float2 _coord : TEXCOORD1) : SV_Target"

structure Paint where
  function : String
  params : List ShaderType
  deriving DecidableEq, Repr, Inhabited

/-- The bindings of the declarations written so far, in order. -/
abbrev State := List Binding

def bind (bs : List Binding) : Emit State Unit :=
  modify fun w => { w with own := w.own ++ bs }

/-! ### Calls -/

/-- The swizzle that narrows an argument to a parameter; empty if nothing has to be dropped. -/
def truncation (arg : Expr) (param : ShaderType) : String :=
  if !param.isNumeric || 4 ≤ param.arity then ""
  else
    match arg.type? with
    | none => ""
    | some t =>
      if !t.isNumeric || t.arity ≤ param.arity then ""
      else
        match param.arity with
        | 1 => ".x"
        | 2 => ".xy"
        | _ => ".xyz"

/-- Whether a swizzle behind the expression would bind to a part of it. -/
def needsParentheses : Expr → Bool
  | .unary .. => true
  | .assign .. => true
  | _ => false

def narrowed (arg : Operand State) (param : ShaderType) : Emit State Unit := do
  let swizzle := truncation arg.expr param
  if swizzle ≠ "" && needsParentheses arg.expr then
    Emit.write "("
    arg.write
    Emit.write ")"
  else arg.write
  Emit.write swizzle

def paintArgs : List (Operand State) → List ShaderType → List (Emit State Unit)
  | [], _ => []
  | arg :: rest, [] => arg.write :: paintArgs rest []
  | arg :: rest, param :: params => narrowed arg param :: paintArgs rest params

/-- A texture read: `sample(t, uv)` becomes a method of the texture that takes its sampler state. -/
def callSample : List (Operand State) → Emit State Unit
  | [texture, uv] => do
    let (t, s) ← match texture.expr, texture.element with
      | .ident name _, _ =>
        let t := variableNames.get name
        pure (t, t ++ samplerSuffix)
      | _, some (name, index) => do
        let i ← Emit.captured index
        let t := variableNames.get name
        pure (t ++ "[" ++ i ++ "]", t ++ samplerSuffix ++ "[" ++ i ++ "]")
      | _, none => throw (.refused .sampleTexture)
    Emit.write (t ++ ".Sample(" ++ s ++ ", ")
    uv.write
    Emit.write ")"
  | args => throw (.refused (.sampleArity args.length))

def call (paint : Paint) (callee : String) (args : List (Operand State)) : Emit State Unit :=
  if callee = sampleFunction then callSample args
  else if callee = paint.function then do
    Emit.write (functions.get callee ++ "(")
    Emit.separated ", " (paintArgs args paint.params)
    Emit.write ")"
  else ExprDialect.callMapped functions callee args

def exprDialect (paint : Paint) : ExprDialect State where
  types := types
  qualifiers := qualifiers
  functions := functions
  variableNames _ := variableNames
  call := call paint

/-! ### Declarations -/

def declareTexture (d : ExprDialect State) (v : Variable) : Emit State Unit := do
  let texture ← d.typeName v.type
  let name ← d.variableName v.name
  Emit.writeLine ("SamplerState " ++ name ++ samplerSuffix ++ v.extent ++ " : " ++
    RegisterClass.sampler.register v.slot ++ ";")
  Emit.writeLine (texture ++ " " ++ name ++ v.extent ++ " : " ++
    RegisterClass.texture.register v.slot ++ ";")
  bind [⟨v.name, .texture, v.slot, v.count⟩, ⟨v.name ++ samplerSuffix, .sampler, v.slot, v.count⟩]

def declareUniform (d : ExprDialect State) (v : Variable) : Emit State Unit := do
  match Category.ofComponents? v.type.components with
  | none => throw (.refused (.unbindable v.name v.type))
  | some category =>
    let type ← d.typeName v.type
    let uniform ← d.qualifier v.qualifier.text
    let name ← d.variableName v.name
    Emit.writeLine (uniform ++ " " ++ type ++ " " ++ name ++ v.extent ++ " : " ++
      category.registerClass.register v.slot ++ ";")
    bind [⟨v.name, category, v.slot, v.count⟩]

/-- A constant is a replacement text, a parameter is bound to a register, and any other
variable is static outside the functions. -/
def declare (d : ExprDialect State) (v : VarDecl) : Emit State Unit := do
  match v.var.qualifier with
  | .const => d.defineConstant v
  | .param =>
    match (← get).function with
    | some f => throw (.refused (.localParameter v.var.name f))
    | none => if v.var.type.isSampler then declareTexture d v.var else declareUniform d v.var
  | _ =>
    match (← get).function with
    | none => Emit.writeLine ("static " ++ (← d.varDeclText v) ++ ";")
    | some _ => d.varDecl v

def stmtDialect (paint : Paint) : StmtDialect State where
  toExprDialect := exprDialect paint
  declare := declare (exprDialect paint)
  discard := "discard;"

/-- The entry point gets the signature of a pixel shader and returns its accumulator. -/
def define (d : StmtDialect State) (f : FuncDef) : Emit State Unit := do
  if f.name ≠ entryPointName then d.funcDef f
  else
    match f.entryFault? with
    | some why => throw (.refused (.entryPoint why))
    | none =>
      let acc := f.accumulator
      let init := "float4 " ++ (← d.variableName acc) ++ " = float4(0.0, 0.0, 0.0, 0.0);"
      modify fun w => { w with entry := .arm acc init }
      d.funcWithSignature entrySignature f

def dialect (paint : Paint) : Dialect State where
  toStmtDialect := stmtDialect paint
  define := define (stmtDialect paint)

end Shaderwright.Hlsl
