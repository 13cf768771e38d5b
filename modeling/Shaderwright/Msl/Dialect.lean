import Shaderwright.Emit.Names
import Shaderwright.Emit.Shader
import Shaderwright.Msl.Uniform

/-!
MSL as a target: parameters become fields of the uniform struct, and every helper function
takes the sampler and the uniforms along.
-/

namespace Shaderwright.Msl

def textureType : String := "texture2d<float>"

def types : NameTable := typeTable textureType

def qualifiers : NameTable := qualifierTable "constant" "thread"

def inputName : StageInput → String
  | .fragCoord => "_in.position"
  | .texCoord => "_in.uv"
  | .vertexColor => "_in.color"
  | .localCoord => "_in.coord"

def functions : NameTable := functionTable [
  ("mod", "fmod"), ("inversesqrt", "rsqrt"), ("dFdx", "dfdx"), ("dFdy", "dfdy")]

/-- The functions that are part of the language. All others are helpers. -/
def coreFunctions : List String := [
  "main", "sample",
  "radians", "degrees",
  "sin", "cos", "tan", "asin", "acos", "atan",
  "pow", "exp", "log", "exp2", "log2",
  "sqrt", "inversesqrt",
  "sinh", "cosh", "tanh", "asinh", "acosh", "atanh",
  "abs", "sign", "floor", "ceil", "fract", "mod",
  "round", "roundEven", "trunc", "saturate", "fma",
  "isnan", "isinf",
  "min", "max", "clamp", "mix", "step", "smoothstep",
  "length", "distance", "dot", "cross", "normalize",
  "reflect", "refract", "faceforward",
  "dFdx", "dFdy", "fwidth",
  "any", "all", "not",
  "lessThan", "lessThanEqual", "greaterThan", "greaterThanEqual",
  "equal", "notEqual",
  "float", "vec2", "vec3", "vec4",
  "int", "ivec2", "ivec3", "ivec4",
  "bool", "bvec2", "bvec3", "bvec4"]

/-- Whether a function takes the sampler and the uniforms as its first two arguments. -/
def isHelper (name : String) : Bool := !coreFunctions.contains name

structure State where
  variableNames : NameTable := inputTable inputName
  /-- The fields of the uniform struct, in the order of declaration. -/
  uniforms : List Uniform := []
  /-- The first argument-buffer ID that is still free. -/
  nextId : Int64 := 0
  /-- The helpers defined so far. -/
  helpers : List String := []
  /-- Whether a texture was read. -/
  samples : Bool := false
  deriving Repr, Inhabited

def modifyOwn (f : State → State) : Emit State Unit :=
  modify fun w => { w with own := f w.own }

/-! ### Calls -/

def callHelper (name : String) (args : List (Operand State)) : Emit State Unit := do
  Emit.write (name ++ "(_sampler, _uniforms")
  args.forM fun arg => do
    Emit.write ", "
    arg.write
  Emit.write ")"

/-- A call under the names that a table gives to the functions. -/
def call (names : NameTable) (callee : String) (args : List (Operand State)) :
    Emit State Unit := do
  if callee = sampleFunction then
    modifyOwn fun s => { s with samples := true }
    ExprDialect.callNamed (names.get callee) args
  else if isHelper callee then callHelper (names.get callee) args
  else ExprDialect.callMapped names callee args

def exprDialect (names : NameTable) : ExprDialect State where
  types := types
  qualifiers := qualifiers
  functions := names
  variableNames s := s.variableNames
  call := call names

/-! ### Declarations -/

/-- The field of a parameter. A name that has a field already keeps the one it has. -/
def declareUniform (d : ExprDialect State) (v : Variable) : Emit State Unit := do
  if (← get).own.uniforms.any fun u => u.name = v.name then return
  let type ← d.typeName v.type
  let precision := if v.precision.text = "" then "" else v.precision.text ++ " "
  let field := precision ++ type ++ " " ++ v.name ++ v.extent ++ ";"
  modifyOwn fun s => { s with
    uniforms := s.uniforms ++ [⟨v.name, field, s.nextId, v.count⟩]
    nextId := s.nextId + v.count
    variableNames := s.variableNames.insert v.name ("_uniforms." ++ v.name) }

/-- A constant is a replacement text, a parameter a field of the uniform struct, and any other
variable outside the functions lives in constant memory and so needs a value. -/
def declare (d : ExprDialect State) (v : VarDecl) : Emit State Unit := do
  match v.var.qualifier with
  | .const => d.defineConstant v
  | .param =>
    match (← get).function with
    | some f => throw (.refused (.localParameter v.var.name f))
    | none => declareUniform d v.var
  | _ =>
    match (← get).function with
    | some _ => d.varDecl v
    | none =>
      if v.init.isAbsent then throw (.refused (.uninitialized v.var.name))
      Emit.writeLine ("constant " ++ (← d.varDeclText v) ++ ";")

def stmtDialect (names : NameTable) : StmtDialect State where
  toExprDialect := exprDialect names
  declare := declare (exprDialect names)
  discard := "discard_fragment();"

/-! ### Functions -/

/-- A parameter; one that hands a value out is a reference to thread memory. -/
def paramText (d : ExprDialect State) (p : VarDecl) : Emit State String := do
  let type ← d.typeName p.var.type
  let name ← d.variableName p.var.name
  if p.var.out then return (← d.qualifier "out") ++ " " ++ type ++ "& " ++ name
  return type ++ " " ++ name ++ p.var.extent

def defineEntry (d : StmtDialect State) (shader : String) (f : FuncDef) : Emit State Unit := do
  match f.entryFault? with
  | some why => throw (.refused (.entryPoint why))
  | none =>
    let acc ← d.variableName f.accumulator
    modify fun w => { w with entry := .arm acc ("float4 " ++ acc ++ " = float4(0.0);") }
    d.funcWithSignature
      ("fragment float4 " ++ prefixed shader entryPointName ++
        "(FragmentIn _in [[stage_in]], constant " ++ uniformsName shader ++
        "& _uniforms [[buffer(0)]], sampler _sampler [[sampler(0)]])") f

def define (d : StmtDialect State) (shader : String) (f : FuncDef) : Emit State Unit := do
  if f.name = entryPointName then defineEntry d shader f
  else
    let type ← d.typeName f.returns
    let name := d.functionName f.name
    let handles := if isHelper f.name
      then ["sampler _sampler", "constant " ++ uniformsName shader ++ "& _uniforms"] else []
    if isHelper f.name then modifyOwn fun s => { s with helpers := s.helpers ++ [name] }
    let params ← f.params.mapM (paramText d.toExprDialect)
    d.funcWithSignature
      (type ++ " " ++ name ++ "(" ++ Text.joinWith ", " (handles ++ params) ++ ")") f

def dialect (names : NameTable) (shader : String) : Dialect State where
  toStmtDialect := stmtDialect names
  define := define (stmtDialect names) shader

/-- The function through which all texture reads of a shader go. -/
def sampleHelper (shader : String) : String :=
  "float4 " ++ prefixed shader sampleFunction ++ "(sampler s, " ++ textureType ++
    " t, float2 uv) \x7b\n    return t.sample(s, uv);\n\x7d\n"

end Shaderwright.Msl
